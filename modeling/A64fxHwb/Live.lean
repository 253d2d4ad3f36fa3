/-
The live allocations, whatever the core table holds.

While the module loads, requests run on tables that are not built yet, and the base
invariant does not hold. What is followed here needs no table: which CMG and blade
every live allocation names, the CPUs of its mask, and the `bb_active` bits. A call that
returns takes allocations away, with the bits of these, and changes nothing else of
this (`Sheds`); only a BB_ALLOC adds one.
-/
import A64fxHwb.Ownership
import A64fxHwb.Balance

set_option autoImplicit false

namespace A64fxHwb

open BitWord

variable {hw : Machine} {c : Call hw} {d d' d'' : a64fx_hwb_device} {s s' : Kernel}

/-! ## The lists without their data -/

/-- The group of a mapping, with the places of its allocations. -/
def a64fx_task_mapping.outline (m : a64fx_task_mapping) : ℕ × List (ℕ × ℕ) :=
  (m.group, m.allocs.map a64fx_task_allocation.place)

/-- The mappings in their order. -/
def a64fx_hwb_device.outline (d : a64fx_hwb_device) : List (ℕ × List (ℕ × ℕ)) :=
  d.task_list.map a64fx_task_mapping.outline

theorem places_eq_outline (d : a64fx_hwb_device) : d.places = d.outline.flatMap Prod.snd := by
  rw [a64fx_hwb_device.places, a64fx_hwb_device.allocs, a64fx_hwb_device.outline,
    List.map_flatMap, List.flatMap_map]
  rfl

/-- A mapping that is found is found in the outline. -/
theorem lookup_outline {g : ℕ} {m : a64fx_task_mapping}
    (h : Keyed.lookup a64fx_task_mapping.group g d.task_list = some m) :
    Keyed.lookup Prod.fst g d.outline = some m.outline := by
  have hmap : Keyed.lookup Prod.fst g d.outline =
      (Keyed.lookup a64fx_task_mapping.group g d.task_list).map a64fx_task_mapping.outline :=
    List.find?_map
  rw [hmap, h]
  rfl

/-- Unlinking the mapping of a group takes away its places, -/
theorem perm_unmapped {l : List (ℕ × List (ℕ × ℕ))} {g : ℕ} {x : ℕ × List (ℕ × ℕ)}
    (h : Keyed.lookup Prod.fst g l = some x) :
    (l.flatMap Prod.snd).Perm (x.2 ++ (Keyed.erase Prod.fst g l).flatMap Prod.snd) := by
  have hperm := (Keyed.perm_cons_erase h).flatMap_right Prod.snd
  rw [List.flatMap_cons] at hperm
  exact hperm

/-- and unlinking one allocation of it takes away one. -/
theorem perm_dropped {l : List (ℕ × List (ℕ × ℕ))} {g : ℕ} {x : ℕ × List (ℕ × ℕ)} {p : ℕ × ℕ}
    (h : Keyed.lookup Prod.fst g l = some x) (hp : p ∈ x.2) :
    (l.flatMap Prod.snd).Perm (p :: (Keyed.modify Prod.fst g
      (fun x => (x.1, Keyed.erase id p x.2)) l).flatMap Prod.snd) := by
  induction l with
  | nil => cases h
  | cons y l ih =>
      rw [Keyed.modify]
      by_cases hy : y.1 = g
      · rw [Keyed.lookup_cons_self hy] at h
        rw [if_pos hy, List.flatMap_cons, List.flatMap_cons, Option.some.inj h, ← List.cons_append]
        have hfind : Keyed.lookup id p x.2 = some p := by
          cases hl : Keyed.lookup id p x.2 with
          | none => exact absurd rfl (Keyed.lookup_eq_none.mp hl p hp)
          | some q =>
              have hq : q = p := Keyed.lookup_key hl
              rw [hq]
        exact (Keyed.perm_cons_erase hfind).append_right _
      · rw [Keyed.lookup_cons_of_ne hy] at h
        rw [if_neg hy, List.flatMap_cons, List.flatMap_cons]
        exact ((ih h).append_left y.2).trans List.perm_middle

theorem sublist_dropped (l : List (ℕ × List (ℕ × ℕ))) (g : ℕ) (p : ℕ × ℕ) :
    ((Keyed.modify Prod.fst g (fun x => (x.1, Keyed.erase id p x.2)) l).flatMap Prod.snd).Sublist
      (l.flatMap Prod.snd) := by
  induction l with
  | nil => exact .refl _
  | cons y l ih =>
      rw [Keyed.modify]
      by_cases hy : y.1 = g
      · rw [if_pos hy, List.flatMap_cons, List.flatMap_cons]
        exact List.eraseP_sublist.append_right _
      · rw [if_neg hy, List.flatMap_cons, List.flatMap_cons]
        exact ih.append_left y.2

theorem sublist_unmapped (l : List (ℕ × List (ℕ × ℕ))) (g : ℕ) :
    ((Keyed.erase Prod.fst g l).flatMap Prod.snd).Sublist (l.flatMap Prod.snd) :=
  List.Sublist.flatMap List.eraseP_sublist _

/-! ## What a call does to them -/

/-- The CPUs of the allocation all lie on the CMG that it names. -/
def a64fx_task_allocation.OnCmg (hw : Machine) (a : a64fx_task_allocation) : Prop :=
  ∃ i : Fin MAX_NUM_CMG, a.cmg = i.val ∧ ∀ k, a.cpumask.getLsbD k = true → hw.cmg k = i

/-- So it is for every allocation. -/
def a64fx_hwb_device.OnCmgs (hw : Machine) (d : a64fx_hwb_device) : Prop :=
  ∀ a ∈ d.allocs, a.OnCmg hw

/-- No allocation comes or goes, and no blade is taken or given back. -/
structure Quiet (hw : Machine) (d d' : a64fx_hwb_device) : Prop where
  table : SameTable d d'
  outline : d'.outline = d.outline
  on_cmgs : d.OnCmgs hw → d'.OnCmgs hw
  bb : ∀ i b, d'.bb i b = d.bb i b

/-- The allocation of group `g` for the place `p` goes, and the blade of the CMG `cmg`
with its number is given back. -/
structure Drops (hw : Machine) (g : ℕ) (cmg : Fin MAX_NUM_CMG) (p : ℕ × ℕ)
    (d d' : a64fx_hwb_device) : Prop where
  table : SameTable d d'
  outline : d'.outline = Keyed.modify Prod.fst g (fun x => (x.1, Keyed.erase id p x.2)) d.outline
  on_cmgs : d.OnCmgs hw → d'.OnCmgs hw
  bb : ∀ i b, d'.bb i b = true ↔ d.bb i b = true ∧ ¬(i = cmg ∧ b = p.2)

/-- **Allocations go, none comes.** A blade that is given back had one of them, by the
index of its CMG or by the number the CMG carries. -/
structure Sheds (hw : Machine) (d d' : a64fx_hwb_device) : Prop where
  table : SameTable d d'
  places : d'.places.Sublist d.places
  on_cmgs : d.OnCmgs hw → d'.OnCmgs hw
  cleared : ∀ i b, d'.bb i b = true → d.bb i b = true
  kept : ∀ i b, d.bb i b = true → d'.bb i b = true ∨
    ∃ p ∈ d.places, p ∉ d'.places ∧ p.2 = b ∧ (p.1 = i.val ∨ (p.1 : ℤ) = (d.cmgs i).cmg_id)

theorem Quiet.refl (d : a64fx_hwb_device) : Quiet hw d d := ⟨.refl d, rfl, id, fun _ _ => rfl⟩

theorem Quiet.trans (h : Quiet hw d d') (h' : Quiet hw d' d'') : Quiet hw d d'' where
  table := h.table.trans h'.table
  outline := h'.outline.trans h.outline
  on_cmgs := fun hd => h'.on_cmgs (h.on_cmgs hd)
  bb i b := (h'.bb i b).trans (h.bb i b)

theorem Quiet.places (h : Quiet hw d d') : d'.places = d.places := by
  rw [places_eq_outline, places_eq_outline, h.outline]

theorem Quiet.sheds (h : Quiet hw d d') : Sheds hw d d' where
  table := h.table
  places := by rw [h.places]
  on_cmgs := h.on_cmgs
  cleared i b hb := by rw [← h.bb i b]; exact hb
  kept i b hb := Or.inl ((h.bb i b).trans hb)

theorem Sheds.trans (h : Sheds hw d d') (h' : Sheds hw d' d'') : Sheds hw d d'' where
  table := h.table.trans h'.table
  places := h'.places.trans h.places
  on_cmgs := fun hd => h'.on_cmgs (h.on_cmgs hd)
  cleared i b hb := h.cleared i b (h'.cleared i b hb)
  kept i b hb := by
    rcases h.kept i b hb with hb' | ⟨p, hp, hno, hrest⟩
    · rcases h'.kept i b hb' with hb'' | ⟨p, hp, hno, hrest⟩
      · exact Or.inl hb''
      · rw [(h.table.cmg i).1] at hrest
        exact Or.inr ⟨p, h.places.subset hp, hno, hrest⟩
    · exact Or.inr ⟨p, hp, fun hp' => hno (h'.places.subset hp'), hrest⟩

/-- With no place named twice, the allocation that is freed leaves no other behind. -/
theorem Drops.sheds {g : ℕ} {cmg : Fin MAX_NUM_CMG} {p : ℕ × ℕ} {x : ℕ × List (ℕ × ℕ)}
    (h : Drops hw g cmg p d d') (hn : d.places.Nodup)
    (hx : Keyed.lookup Prod.fst g d.outline = some x) (hp : p ∈ x.2)
    (hcmg : (p.1 : ℤ) = (d.cmgs cmg).cmg_id) : Sheds hw d d' := by
  have hperm : d.places.Perm (p :: d'.places) := by
    rw [places_eq_outline, places_eq_outline, h.outline]
    exact perm_dropped hx hp
  refine ⟨h.table, ?_, h.on_cmgs, fun i b hb => ((h.bb i b).mp hb).1, fun i b hb => ?_⟩
  · rw [places_eq_outline, places_eq_outline, h.outline]
    exact sublist_dropped _ _ _
  · by_cases heq : i = cmg ∧ b = p.2
    · obtain ⟨rfl, rfl⟩ := heq
      refine Or.inr ⟨p, hperm.mem_iff.mpr List.mem_cons_self, ?_, rfl, Or.inr hcmg⟩
      exact (List.nodup_cons.mp (hperm.nodup_iff.mp hn)).1
    · exact Or.inl ((h.bb i b).mpr ⟨hb, heq⟩)

/-! ## The writes -/

variable {tm : a64fx_task_mapping} {a : a64fx_task_allocation} {cmg : Fin MAX_NUM_CMG}

theorem Quiet.with_pe (d : a64fx_hwb_device) (i : Fin MAX_NUM_CMG) (j : Fin MAX_PE_PER_CMG)
    {f : a64fx_core_mapping → a64fx_core_mapping}
    (hf : ∀ p, (f p).cpu_id = p.cpu_id ∧ (f p).cmg_id = p.cmg_id ∧ (f p).ppe_id = p.ppe_id) :
    Quiet hw d (d.with_cmg i fun x => x.with_pe j f) :=
  ⟨SameTable.with_pe d i j f hf, rfl, id, bb_with_pe j f⟩

theorem sameTable_with_taskmap {f : a64fx_task_mapping → a64fx_task_mapping} :
    SameTable d (d.with_taskmap tm f) :=
  ⟨rfl, rfl, fun _ => ⟨rfl, rfl, rfl⟩, fun _ _ => ⟨rfl, rfl, rfl⟩⟩

theorem Quiet.store_alloc (d : a64fx_hwb_device) (tm : a64fx_task_mapping) (ha : a.OnCmg hw) :
    Quiet hw d (d.store_alloc tm a) := by
  refine ⟨sameTable_with_taskmap, ?_, fun hd x hx => ?_, fun _ _ => rfl⟩
  · refine Keyed.map_modify (g := a64fx_task_mapping.outline) (fun m => ?_) d.task_list
    have hplaces : (Keyed.modify a64fx_task_allocation.place a.place (fun _ => a) m.allocs).map
        a64fx_task_allocation.place = m.allocs.map a64fx_task_allocation.place :=
      Keyed.map_key_modify (fun _ _ => rfl) m.allocs
    rw [a64fx_task_mapping.outline, hplaces]
    rfl
  · obtain ⟨m', hm', hx⟩ := List.mem_flatMap.mp hx
    rcases Keyed.mem_of_mem_modify hm' with hm' | ⟨m, hm, -, rfl⟩
    · exact hd x (List.mem_flatMap.mpr ⟨m', hm', hx⟩)
    · rcases Keyed.mem_of_mem_modify hx with hx | ⟨y, -, -, rfl⟩
      · exact hd x (List.mem_flatMap.mpr ⟨m, hm, hx⟩)
      · exact ha

/-- The window of a PE, and what an allocation records of it. -/
theorem Quiet.store_window (d : a64fx_hwb_device) (tm : a64fx_task_mapping) (i : Fin MAX_NUM_CMG)
    (j : Fin MAX_PE_PER_CMG) {f : a64fx_core_mapping → a64fx_core_mapping}
    (hf : ∀ p, (f p).cpu_id = p.cpu_id ∧ (f p).cmg_id = p.cmg_id ∧ (f p).ppe_id = p.ppe_id)
    (ha : a.OnCmg hw) :
    Quiet hw d ((d.with_cmg i fun x => x.with_pe j f).store_alloc tm a) :=
  (Quiet.with_pe d i j hf).trans (.store_alloc _ tm ha)

/-- The allocations of a device whose mapping has lost some. -/
theorem on_cmgs_with_taskmap {f : a64fx_task_mapping → a64fx_task_mapping}
    (hf : ∀ m, ∀ a ∈ (f m).allocs, a ∈ m.allocs) (hd : d.OnCmgs hw) :
    (d.with_taskmap tm f).OnCmgs hw := by
  intro x hx
  obtain ⟨m', hm', hx⟩ := List.mem_flatMap.mp hx
  rcases Keyed.mem_of_mem_modify hm' with hm' | ⟨m, hm, -, rfl⟩
  · exact hd x (List.mem_flatMap.mpr ⟨m', hm', hx⟩)
  · exact hd x (List.mem_flatMap.mpr ⟨m, hm, hf m x hx⟩)

/-- `list_del` of the allocation. -/
def a64fx_hwb_device.unlink_alloc (d : a64fx_hwb_device) (tm : a64fx_task_mapping)
    (a : a64fx_task_allocation) : a64fx_hwb_device :=
  d.with_taskmap tm fun m =>
    { m with
      allocs := Keyed.erase a64fx_task_allocation.place a.place m.allocs
      num_allocs := m.num_allocs - 1 }

theorem outline_unlink_alloc (d : a64fx_hwb_device) (tm : a64fx_task_mapping)
    (a : a64fx_task_allocation) : (d.unlink_alloc tm a).outline = Keyed.modify Prod.fst tm.group
      (fun x => (x.1, Keyed.erase id a.place x.2)) d.outline := by
  have hplaces : ∀ l : List a64fx_task_allocation,
      (Keyed.erase a64fx_task_allocation.place a.place l).map a64fx_task_allocation.place =
        Keyed.erase id a.place (l.map a64fx_task_allocation.place) :=
    Keyed.erase_map fun _ => rfl
  have hmap : (Keyed.modify a64fx_task_mapping.group tm.group (fun m => { m with
      allocs := Keyed.erase a64fx_task_allocation.place a.place m.allocs
      num_allocs := m.num_allocs - 1 }) d.task_list).map a64fx_task_mapping.outline =
      Keyed.modify Prod.fst tm.group (fun x => (x.1, Keyed.erase id a.place x.2))
        (d.task_list.map a64fx_task_mapping.outline) := by
    refine Keyed.modify_map ?_ ?_ d.task_list
    · exact fun _ => rfl
    · intro m
      rw [a64fx_task_mapping.outline, hplaces]
      rfl
  exact hmap

theorem on_cmgs_unlink_alloc (hd : d.OnCmgs hw) : (d.unlink_alloc tm a).OnCmgs hw :=
  on_cmgs_with_taskmap (fun _ _ hx => Keyed.mem_of_mem_erase hx) hd

/-- A clear bit does not change when it is cleared. -/
theorem bb_of_clear {b : ℕ} (hb : d.bb cmg b = false) (i : Fin MAX_NUM_CMG) (b' : ℕ) :
    d.bb i b' = true ↔ d.bb i b' = true ∧ ¬(i = cmg ∧ b' = b) := by
  constructor
  · intro h
    refine ⟨h, ?_⟩
    rintro ⟨rfl, rfl⟩
    rw [hb] at h
    exact Bool.noConfusion h
  · exact fun h => h.1

/-! ## Giving a blade back -/

theorem quiet_of_free_allocation_cpu {x y : FreeLoop} {cpu : ℕ} (ha : x.alloc.OnCmg hw)
    (h : free_allocation_cpu c cmg tm x cpu = .ok y) :
    Quiet hw x.kernel.dev y.kernel.dev ∧ y.alloc.OnCmg hw := by
  unfold free_allocation_cpu at h
  simp only [Loops.bind_eq_ok] at h
  obtain ⟨pe, -, ppe, -, h⟩ := h
  split_ifs at h
  · rw [Loops.bind_eq_ok] at h
    obtain ⟨bw_map, -, h⟩ := h
    cases h
    exact ⟨Quiet.store_window _ tm cmg pe (fun _ => ⟨rfl, rfl, rfl⟩) ha, ha⟩
  · cases h
    exact ⟨.refl _, ha⟩

theorem quiet_of_free_allocation_loop {x y : FreeLoop} (ha : x.alloc.OnCmg hw)
    (h : free_allocation_loop c cmg tm x = .ok y) : Quiet hw x.kernel.dev y.kernel.dev := by
  refine ((Loops.foldlM_ok (fun y => Quiet hw x.kernel.dev y.kernel.dev ∧ y.alloc.OnCmg hw)
    (fun _ => True) _ _ x y h ⟨.refl _, ha⟩ fun cpu _ u v hu hstep => ⟨?_, trivial⟩).1).1
  split_ifs at hstep
  · obtain ⟨hquiet, hv⟩ := quiet_of_free_allocation_cpu hu.2 hstep
    exact ⟨hu.1.trans hquiet, hv⟩
  · cases hstep
    exact hu

/-- **`free_allocation`, when it returns.** -/
theorem drops_of_free_allocation (ha : a.OnCmg hw) (h : free_allocation c cmg tm a s = .ok s') :
    Drops hw tm.group cmg a.place s.dev s'.dev := by
  unfold free_allocation at h
  rw [Loops.bind_eq_ok] at h
  obtain ⟨active, htest, h⟩ := h
  simp only [pure_bind] at h
  -- the blade's bit is cleared after the walk over the windows
  have hactive : ∀ t : Kernel, Quiet hw s.dev t.dev → ∀ bb_active,
      clear_bit a.blade (t.dev.cmgs cmg).bb_active = .ok bb_active →
      Drops hw tm.group cmg a.place s.dev ((t.dev.with_cmg cmg fun d =>
        { d with bb_active := bb_active }).unlink_alloc tm a) := by
    intro t ht bb_active hclear
    have hval : bb_active = clearBit (t.dev.cmgs cmg).bb_active a.blade := by
      unfold clear_bit at hclear
      split_ifs at hclear
      cases hclear
      rfl
    rw [hval]
    refine ⟨ht.table.trans sameTable_drop_alloc, ?_, fun hd => ?_, fun i b => ?_⟩
    · rw [outline_unlink_alloc, ← ht.outline]
      rfl
    · exact on_cmgs_unlink_alloc (ht.on_cmgs hd)
    · rw [← ht.bb i b]
      exact bb_drop_alloc i b
  split_ifs at h
  · simp only [Loops.bind_eq_ok] at h
    obtain ⟨y, hloop, bb_active, hclear, h⟩ := h
    cases h
    exact hactive y.kernel (quiet_of_free_allocation_loop ha hloop) bb_active hclear
  · rw [Loops.bind_eq_ok] at h
    obtain ⟨bb_active, hclear, h⟩ := h
    cases h
    exact hactive s (.refl _) bb_active hclear
  · -- the bit is clear already
    cases h
    have hbit : s.dev.bb cmg a.blade = false := by
      unfold test_bit at htest
      split_ifs at htest with hrange
      · have hfalse := Except.ok.inj htest
        rw [Int.toNat_natCast] at hfalse
        exact hfalse.trans (Bool.eq_false_iff.mpr ‹_›)
      · exact BitVec.getLsbD_of_ge _ _ (by omega)
    exact ⟨sameTable_with_taskmap, outline_unlink_alloc _ _ _, on_cmgs_unlink_alloc,
      bb_of_clear hbit⟩

/-! ## Giving a mapping back -/

theorem outline_unmap_group (d : a64fx_hwb_device) (g : ℕ) :
    (d.unmap_group g).outline = Keyed.erase Prod.fst g d.outline := by
  have hmap : (Keyed.erase a64fx_task_mapping.group g d.task_list).map a64fx_task_mapping.outline =
      Keyed.erase Prod.fst g (d.task_list.map a64fx_task_mapping.outline) := by
    refine Keyed.erase_map ?_ d.task_list
    exact fun _ => rfl
  exact hmap

theorem on_cmgs_unmap_group {g : ℕ} (hd : d.OnCmgs hw) : (d.unmap_group g).OnCmgs hw := by
  intro x hx
  obtain ⟨m, hm, hx⟩ := List.mem_flatMap.mp hx
  exact hd x (List.mem_flatMap.mpr ⟨m, Keyed.mem_of_mem_erase hm, hx⟩)

theorem cmgs_ptr_eq_ok {n : ℕ} (h : cmgs_ptr n = .ok cmg) : cmg.val = n := by
  unfold cmgs_ptr at h
  split_ifs at h
  cases h
  exact Int.toNat_natCast n

/-- What the walk over the allocations of a mapping keeps. -/
structure Unmapping (hw : Machine) (m : a64fx_task_mapping) (d d' : a64fx_hwb_device) : Prop where
  table : SameTable d d'
  outline : Keyed.erase Prod.fst m.group d'.outline = Keyed.erase Prod.fst m.group d.outline
  on_cmgs : d.OnCmgs hw → d'.OnCmgs hw
  cleared : ∀ i b, d'.bb i b = true → d.bb i b = true
  kept : ∀ i b, d.bb i b = true →
    d'.bb i b = true ∨ ∃ a ∈ m.allocs, a.cmg = i.val ∧ a.blade = b

theorem Unmapping.refl (m : a64fx_task_mapping) (d : a64fx_hwb_device) : Unmapping hw m d d :=
  ⟨.refl d, rfl, id, fun _ _ h => h, fun _ _ h => Or.inl h⟩

/-- One more allocation of the mapping. -/
theorem Unmapping.step {m : a64fx_task_mapping} (h : Unmapping hw m d d') (ha : a ∈ m.allocs)
    (hc : cmg.val = a.cmg) (hdrops : Drops hw m.group cmg a.place d' d'') :
    Unmapping hw m d d'' where
  table := h.table.trans hdrops.table
  outline := by
    have hsame : Keyed.erase Prod.fst m.group (Keyed.modify Prod.fst m.group
        (fun x => (x.1, Keyed.erase id a.place x.2)) d'.outline) =
        Keyed.erase Prod.fst m.group d'.outline := by
      refine Keyed.erase_modify ?_ d'.outline
      exact fun _ hx => hx
    rw [hdrops.outline, hsame]
    exact h.outline
  on_cmgs := fun hd => hdrops.on_cmgs (h.on_cmgs hd)
  cleared i b hb := h.cleared i b ((hdrops.bb i b).mp hb).1
  kept i b hb := by
    rcases h.kept i b hb with hb' | hgone
    · by_cases heq : i = cmg ∧ b = a.blade
      · exact Or.inr ⟨a, ha, by rw [heq.1, hc], heq.2.symm⟩
      · exact Or.inl ((hdrops.bb i b).mpr ⟨hb', heq⟩)
    · exact Or.inr hgone

/-- Without the mapping, nothing names its places. -/
theorem Unmapping.sheds {m : a64fx_task_mapping} (h : Unmapping hw m d d') (hn : d.places.Nodup)
    (hm : Keyed.lookup a64fx_task_mapping.group m.group d.task_list = some m) :
    Sheds hw d (d'.unmap_group m.group) := by
  have houtline : (d'.unmap_group m.group).outline = Keyed.erase Prod.fst m.group d.outline := by
    rw [outline_unmap_group, h.outline]
  have hperm : d.places.Perm (m.outline.2 ++ (d'.unmap_group m.group).places) := by
    rw [places_eq_outline, places_eq_outline, houtline]
    exact perm_unmapped (lookup_outline hm)
  refine ⟨⟨h.table.num_cmgs, h.table.num_bb, h.table.cmg, h.table.pe⟩, ?_,
    fun hd => on_cmgs_unmap_group (h.on_cmgs hd), h.cleared, fun i b hb => ?_⟩
  · rw [places_eq_outline, places_eq_outline, houtline]
    exact sublist_unmapped _ _
  · rcases h.kept i b hb with hb' | ⟨a, ha, hc, rfl⟩
    · exact Or.inl hb'
    · have hplace : a.place ∈ m.outline.2 := List.mem_map_of_mem ha
      refine Or.inr ⟨a.place, hperm.mem_iff.mpr (List.mem_append_left _ hplace), ?_, rfl,
        Or.inl hc⟩
      exact (List.nodup_append'.mp (hperm.nodup_iff.mp hn)).2.2 hplace

/-- No place is named twice, and all CPUs lie where they should. -/
structure Orderly (hw : Machine) (d : a64fx_hwb_device) : Prop where
  nodup : d.places.Nodup
  on_cmgs : d.OnCmgs hw

theorem Sheds.orderly (h : Sheds hw d d') (ht : Orderly hw d) : Orderly hw d' :=
  ⟨ht.nodup.sublist h.places, h.on_cmgs ht.on_cmgs⟩

/-- **`unregister_task`, when it returns.** -/
theorem sheds_of_unregister_task {task : task_struct} {m : a64fx_task_mapping}
    (ht : Orderly hw s.dev) (hget : get_taskmap s.dev task = some m)
    (h : unregister_task c m s = .ok s') : Sheds hw s.dev s'.dev := by
  obtain ⟨hm, hg⟩ := mem_of_get_taskmap hget
  have hunmap : ∀ t : Kernel, Unmapping hw m s.dev t.dev →
      Sheds hw s.dev (t.dev.unmap_group m.group) := by
    intro t hmap
    refine hmap.sheds ht.nodup ?_
    rw [hg]
    exact hget
  unfold unregister_task at h
  simp only [pure_bind] at h
  split_ifs at h
  · rw [Loops.bind_eq_ok] at h
    obtain ⟨t, hloop, h⟩ := h
    cases h
    refine hunmap t (Loops.foldlM_ok (fun t => Unmapping hw m s.dev t.dev) (fun _ => True) _ _ s t
      hloop (.refl m s.dev) fun a ha u v hu hstep => ⟨?_, trivial⟩).1
    rw [Loops.bind_eq_ok] at hstep
    obtain ⟨cmg, hptr, hfree⟩ := hstep
    have hon : a.OnCmg hw := ht.on_cmgs a (List.mem_flatMap.mpr ⟨m, hm, ha⟩)
    exact hu.step ha (cmgs_ptr_eq_ok hptr) (drops_of_free_allocation hon hfree)
  · cases h
    exact hunmap s (.refl m s.dev)

theorem sheds_of_unregister_if_empty {m : a64fx_task_mapping} (ht : Orderly hw s.dev)
    (h : unregister_if_empty c m s = .ok s') : Sheds hw s.dev s'.dev := by
  unfold unregister_if_empty at h
  cases hget : get_taskmap s.dev m.task with
  | none =>
      rw [hget] at h
      cases h
  | some m' =>
      simp only [hget] at h
      split_ifs at h
      · exact sheds_of_unregister_task ht hget h
      · cases h
        exact (Quiet.refl _).sheds

/-! ## BB_FREE and close -/

/-- The allocation is in the list of group `g`, for the number the CMG carries. -/
structure Listed (hw : Machine) (d : a64fx_hwb_device) (g : ℕ) (cmg : Fin MAX_NUM_CMG)
    (a : a64fx_task_allocation) : Prop where
  on_cmg : a.OnCmg hw
  found : ∃ x, Keyed.lookup Prod.fst g d.outline = some x ∧ a.place ∈ x.2
  number : (a.cmg : ℤ) = (d.cmgs cmg).cmg_id

theorem Listed.quiet {g : ℕ} {a' : a64fx_task_allocation} (h : Listed hw d g cmg a)
    (hq : Quiet hw d d') (hplace : a'.place = a.place) (hon : a'.OnCmg hw) :
    Listed hw d' g cmg a' where
  on_cmg := hon
  found := by
    rw [hq.outline, hplace]
    exact h.found
  number := by
    have hcmg : a'.cmg = a.cmg := congrArg Prod.fst hplace
    rw [hcmg, (hq.table.cmg cmg).1]
    exact h.number

theorem listed_of_get_allocation {task : task_struct} {m : a64fx_task_mapping} {blade : ℤ}
    (ho : Orderly hw d) (hget : get_taskmap d task = some m)
    (ha : get_allocation (d.cmgs cmg) m blade = some a) : Listed hw d m.group cmg a := by
  obtain ⟨hm, hg⟩ := mem_of_get_taskmap hget
  have hmem : a ∈ m.allocs := List.mem_of_find?_eq_some ha
  have hnumber := List.find?_some ha
  refine ⟨ho.on_cmgs a (List.mem_flatMap.mpr ⟨m, hm, hmem⟩), ⟨m.outline, ?_, ?_⟩,
    (of_decide_eq_true hnumber).1⟩
  · refine lookup_outline ?_
    rw [hg]
    exact hget
  · exact List.mem_map_of_mem hmem

theorem sheds_of_free_allocation (ho : Orderly hw s.dev) (hl : Listed hw s.dev tm.group cmg a)
    (h : free_allocation c cmg tm a s = .ok s') : Sheds hw s.dev s'.dev := by
  obtain ⟨x, hx, hp⟩ := hl.found
  exact (drops_of_free_allocation hl.on_cmg h).sheds ho.nodup hx hp hl.number

/-- A blade goes, and the mapping with its last one. -/
theorem sheds_of_release {t : Kernel} (ho : Orderly hw s.dev)
    (hl : Listed hw s.dev tm.group cmg a) (hfree : free_allocation c cmg tm a s = .ok t)
    (hun : unregister_if_empty c tm t = .ok s') : Sheds hw s.dev s'.dev := by
  have hsheds := sheds_of_free_allocation ho hl hfree
  exact hsheds.trans (sheds_of_unregister_if_empty (hsheds.orderly ho) hun)

theorem a64fx_task_allocation.OnCmg.leave (h : a.OnCmg hw) (k : ℕ) : (a.leave k).OnCmg hw := by
  obtain ⟨i, hc, hcpus⟩ := h
  refine ⟨i, hc, fun k' hk' => hcpus k' ?_⟩
  have hbit : (clearBit a.cpumask k).getLsbD k' = true := hk'
  rw [getLsbD_clearBit, Bool.and_eq_true] at hbit
  exact hbit.1

theorem sheds_of_free_leave (ho : Orderly hw s.dev) (hl : Listed hw s.dev tm.group cmg a)
    (h : oss_a64fx_hwb_free_leave c cmg tm a s = .ok s') : Sheds hw s.dev s'.dev := by
  have hon := hl.on_cmg.leave c.cpu
  have hquiet : Quiet hw s.dev (with_left c cmg tm a s).dev := Quiet.store_alloc s.dev tm hon
  rw [free_leave_eq] at h
  split_ifs at h
  · rw [Loops.bind_eq_ok] at h
    obtain ⟨t, hfree, hun⟩ := h
    have hl' : Listed hw (with_left c cmg tm a s).dev tm.group cmg (a.leave c.cpu) :=
      hl.quiet hquiet rfl hon
    exact hquiet.sheds.trans (sheds_of_release (hquiet.sheds.orderly ho) hl' hfree hun)
  · cases h
    exact hquiet.sheds

theorem quiet_of_free_unassign {cmg8 : Fin MAX_NUM_CMG} {pe : Option (Fin MAX_PE_PER_CMG)}
    {x : a64fx_task_allocation × Kernel} (ha : a.OnCmg hw)
    (h : oss_a64fx_hwb_free_unassign c cmg8 pe tm a s = .ok x) :
    Quiet hw s.dev x.2.dev ∧ x.1.place = a.place ∧ x.1.OnCmg hw := by
  unfold oss_a64fx_hwb_free_unassign at h
  simp only [Loops.bind_eq_ok] at h
  obtain ⟨i, -, ppe, -, bw_map, -, w, -, h⟩ := h
  cases h
  exact ⟨Quiet.store_window _ tm cmg8 i (fun _ => ⟨rfl, rfl, rfl⟩) ha, rfl, ha⟩

theorem sheds_of_free_withdraw (ho : Orderly hw s.dev) (hl : Listed hw s.dev tm.group cmg a)
    (h : oss_a64fx_hwb_free_withdraw c cmg tm a s = .ok s') : Sheds hw s.dev s'.dev := by
  unfold oss_a64fx_hwb_free_withdraw at h
  simp only at h
  split_ifs at h
  · rw [Loops.bind_eq_ok] at h
    obtain ⟨x, hun, hleave⟩ := h
    obtain ⟨hquiet, hplace, hon⟩ := quiet_of_free_unassign hl.on_cmg hun
    have hsheds : Sheds hw s.dev x.2.dev := hquiet.sheds
    exact hsheds.trans (sheds_of_free_leave (hsheds.orderly ho) (hl.quiet hquiet hplace hon) hleave)
  · rw [Loops.bind_eq_ok] at h
    obtain ⟨x, hun, hleave⟩ := h
    cases hun
    exact sheds_of_free_leave (s := get_cpu s) ho hl hleave
  · cases h
    exact (Quiet.refl _).sheds

theorem dev_of_spin_unlock_dev (h : spin_unlock_dev s = .ok s') : s'.dev = s.dev := by
  unfold spin_unlock_dev at h
  split_ifs at h
  cases h
  rfl

theorem sheds_of_free_blade {n blade : ℤ} {m : a64fx_task_mapping} {x : ℤ × Kernel}
    (ho : Orderly hw s.dev) (hget : get_taskmap s.dev c.task = some m)
    (h : oss_a64fx_hwb_free_blade c n blade m s = .ok x) : Sheds hw s.dev x.2.dev := by
  unfold oss_a64fx_hwb_free_blade at h
  rw [Loops.bind_eq_ok] at h
  obtain ⟨cmg, -, h⟩ := h
  cases halloc : get_allocation (s.dev.cmgs cmg) m blade with
  | none =>
      rw [halloc] at h
      cases h
      exact (Quiet.refl _).sheds
  | some a =>
      have hl := listed_of_get_allocation ho hget halloc
      simp only [halloc] at h
      split_ifs at h
      · simp only [Loops.bind_eq_ok] at h
        obtain ⟨t, hfree, u, hun, hret⟩ := h
        cases hret
        exact sheds_of_release ho hl hfree hun
      · rw [Loops.bind_eq_ok] at h
        obtain ⟨t, hwith, hret⟩ := h
        cases hret
        exact sheds_of_free_withdraw ho hl hwith
      · cases h
        exact (Quiet.refl _).sheds

/-- **BB_FREE.** -/
theorem sheds_of_free {n blade err : ℤ} (ho : Orderly hw s.dev)
    (h : oss_a64fx_hwb_free c n blade s = .ok (err, s')) : Sheds hw s.dev s'.dev := by
  unfold oss_a64fx_hwb_free at h
  rw [Loops.bind_eq_ok] at h
  obtain ⟨t, hlock, h⟩ := h
  rw [← (preempt_of_spin_lock_dev hlock).1] at ho ⊢
  cases hget : get_taskmap t.dev c.task with
  | none =>
      simp only [hget, pure_bind, Loops.bind_eq_ok] at h
      obtain ⟨v, hunlock, hret⟩ := h
      cases hret
      rw [dev_of_spin_unlock_dev hunlock]
      exact (Quiet.refl _).sheds
  | some m =>
      simp only [hget, Loops.bind_eq_ok] at h
      obtain ⟨x, hbody, v, hunlock, hret⟩ := h
      cases hret
      rw [dev_of_spin_unlock_dev hunlock]
      exact sheds_of_free_blade ho hget hbody

/-- **Close.** -/
theorem sheds_of_close {reply : Reply} (ho : Orderly hw s.dev)
    (h : oss_a64fx_hwb_close c s = .ok (reply, s')) : Sheds hw s.dev s'.dev := by
  unfold oss_a64fx_hwb_close at h
  rw [Loops.bind_eq_ok] at h
  obtain ⟨t, hlock, h⟩ := h
  rw [← (preempt_of_spin_lock_dev hlock).1] at ho ⊢
  have hquiet : ∀ n, Sheds hw t.dev { t.dev with active_count := n } := fun n =>
    Quiet.sheds ⟨⟨rfl, rfl, fun _ => ⟨rfl, rfl, rfl⟩, fun _ _ => ⟨rfl, rfl, rfl⟩⟩, rfl, id,
      fun _ _ => rfl⟩
  simp only [pure_bind] at h
  split_ifs at h
  · split at h
    · rename_i m hget
      split_ifs at h
      · simp only [Loops.bind_eq_ok] at h
        obtain ⟨u, hun, v, hunlock, hret⟩ := h
        cases hret
        rw [dev_of_spin_unlock_dev hunlock]
        have hsheds := sheds_of_unregister_task
          (s := { t with dev := { t.dev with active_count := t.dev.active_count - 1 } })
          ((hquiet _).orderly ho) hget hun
        exact (hquiet _).trans hsheds
      · rw [Loops.bind_eq_ok] at h
        obtain ⟨v, hunlock, hret⟩ := h
        cases hret
        rw [dev_of_spin_unlock_dev hunlock]
        exact hquiet _
    · rw [Loops.bind_eq_ok] at h
      obtain ⟨v, hunlock, hret⟩ := h
      cases hret
      rw [dev_of_spin_unlock_dev hunlock]
      exact hquiet _
  · rw [Loops.bind_eq_ok] at h
    obtain ⟨v, hunlock, hret⟩ := h
    cases hret
    rw [dev_of_spin_unlock_dev hunlock]
    exact (Quiet.refl _).sheds

theorem quiet_of_open {reply : Reply} (h : oss_a64fx_hwb_open s = .ok (reply, s')) :
    Quiet hw s.dev s'.dev := by
  unfold oss_a64fx_hwb_open at h
  simp only [Loops.bind_eq_ok] at h
  obtain ⟨t, hlock, u, hunlock, hret⟩ := h
  cases hret
  rw [dev_of_spin_unlock_dev hunlock, ← (preempt_of_spin_lock_dev hlock).1]
  exact ⟨⟨rfl, rfl, fun _ => ⟨rfl, rfl, rfl⟩, fun _ _ => ⟨rfl, rfl, rfl⟩⟩, rfl, id, fun _ _ => rfl⟩

/-! ## BW_ASSIGN and BW_UNASSIGN -/

theorem dev_of_spin_lock_cmg (h : spin_lock_cmg cmg s = .ok s') : s'.dev = s.dev := by
  unfold spin_lock_cmg at h
  split_ifs at h
  cases h
  rfl

theorem dev_of_spin_unlock_cmg (h : spin_unlock_cmg cmg s = .ok s') : s'.dev = s.dev := by
  unfold spin_unlock_cmg at h
  split_ifs at h
  cases h
  rfl

theorem quiet_of_assign_locked {pe : Option (Fin MAX_PE_PER_CMG)} {blade window : ℤ}
    {x : (ℤ × Option ℤ) × Kernel} (ha : a.OnCmg hw)
    (h : oss_a64fx_hwb_assign_locked c cmg pe blade window tm a s = .ok x) :
    Quiet hw s.dev x.2.dev := by
  unfold oss_a64fx_hwb_assign_locked at h
  rw [Loops.bind_eq_ok] at h
  obtain ⟨t, hlock, h⟩ := h
  rw [← dev_of_spin_lock_cmg hlock]
  -- every exit but one leaves the state to the lock
  have hexit : ∀ r : ℤ × Option ℤ,
      (spin_unlock_cmg cmg t >>= fun s => pure (r, s)) = Except.ok x → Quiet hw t.dev x.2.dev := by
    intro r hx
    rw [Loops.bind_eq_ok] at hx
    obtain ⟨u, hunlock, hret⟩ := hx
    cases hret
    rw [dev_of_spin_unlock_cmg hunlock]
    exact .refl _
  split_ifs at h
  · exact hexit _ h
  · simp only [Loops.bind_eq_ok] at h
    obtain ⟨i, -, ppe, -, chosen, -, h⟩ := h
    cases chosen with
    | none => exact hexit _ h
    | some w =>
        simp only [pure_bind] at h
        by_cases hrange : w ≥ 0 ∧ w < MAX_BW_PER_CMG
        · rw [if_pos hrange, Loops.bind_eq_ok] at h
          obtain ⟨used, -, h⟩ := h
          split_ifs at h
          · simp only [Loops.bind_eq_ok] at h
            obtain ⟨bw_map, -, u, hunlock, hret⟩ := h
            cases hret
            rw [dev_of_spin_unlock_cmg hunlock]
            exact Quiet.store_window _ tm cmg i (fun _ => ⟨rfl, rfl, rfl⟩) ha
          · exact hexit _ h
        · rw [if_neg hrange] at h
          exact hexit _ h

theorem quiet_of_assign_find {blade window : ℤ} {x : (ℤ × Option ℤ) × Kernel}
    (ho : Orderly hw s.dev) (h : oss_a64fx_hwb_assign_find c blade window s = .ok x) :
    Quiet hw s.dev x.2.dev := by
  unfold oss_a64fx_hwb_assign_find at h
  cases hget : get_taskmap s.dev c.task with
  | none =>
      rw [hget] at h
      cases h
      exact .refl _
  | some m =>
      simp only [hget, Machine.read_peinfo] at h
      cases halloc : get_allocation (s.dev.cmgs (hw.cmg c.cpu)) m blade with
      | none =>
          rw [halloc] at h
          cases h
          exact .refl _
      | some a =>
          simp only [halloc] at h
          exact quiet_of_assign_locked (listed_of_get_allocation ho hget halloc).on_cmg h

/-- **BW_ASSIGN.** -/
theorem quiet_of_assign {blade window : ℤ} {ret : ℤ × Option ℤ} (ho : Orderly hw s.dev)
    (h : oss_a64fx_hwb_assign_blade c blade window s = .ok (ret, s')) :
    Quiet hw s.dev s'.dev := by
  unfold oss_a64fx_hwb_assign_blade at h
  split_ifs at h
  · cases h
    exact .refl _
  · simp only [Loops.bind_eq_ok] at h
    obtain ⟨t, hlock, x, hfind, u, hunlock, hret⟩ := h
    cases hret
    rw [← (preempt_of_spin_lock_dev hlock).1] at ho ⊢
    rw [dev_of_spin_unlock_dev hunlock]
    exact quiet_of_assign_find (s := get_cpu t) ho hfind

theorem quiet_of_unassign_locked {i ppe : Fin MAX_PE_PER_CMG} {blade window : ℤ}
    {x : ℤ × Kernel} (ha : a.OnCmg hw)
    (h : oss_a64fx_hwb_unassign_locked c cmg i ppe blade window tm a s = .ok x) :
    Quiet hw s.dev x.2.dev := by
  unfold oss_a64fx_hwb_unassign_locked at h
  simp only [Loops.bind_eq_ok] at h
  obtain ⟨t, hlock, used, -, h⟩ := h
  rw [← dev_of_spin_lock_cmg hlock]
  split_ifs at h
  · simp only [Loops.bind_eq_ok] at h
    obtain ⟨bw_map, -, bw_map', -, u, hunlock, hret⟩ := h
    cases hret
    rw [dev_of_spin_unlock_cmg hunlock]
    exact Quiet.store_window _ tm cmg i (fun _ => ⟨rfl, rfl, rfl⟩) ha
  · rw [Loops.bind_eq_ok] at h
    obtain ⟨u, hunlock, hret⟩ := h
    cases hret
    rw [dev_of_spin_unlock_cmg hunlock]
    exact .refl _

theorem quiet_of_unassign_find {blade : ℤ} {x : ℤ × Kernel} (ho : Orderly hw s.dev)
    (h : oss_a64fx_hwb_unassign_find c blade s = .ok x) : Quiet hw s.dev x.2.dev := by
  unfold oss_a64fx_hwb_unassign_find at h
  cases hget : get_taskmap s.dev c.task with
  | none =>
      rw [hget] at h
      cases h
      exact .refl _
  | some m =>
      simp only [hget, Machine.read_peinfo] at h
      cases halloc : get_allocation (s.dev.cmgs (hw.cmg c.cpu)) m blade with
      | none =>
          rw [halloc] at h
          cases h
          exact .refl _
      | some a =>
          simp only [halloc, Loops.bind_eq_ok] at h
          obtain ⟨i, -, ppe, -, h⟩ := h
          split_ifs at h
          · exact quiet_of_unassign_locked (listed_of_get_allocation ho hget halloc).on_cmg h
          · cases h
            exact .refl _

/-- **BW_UNASSIGN.** -/
theorem quiet_of_unassign {blade err : ℤ} (ho : Orderly hw s.dev)
    (h : oss_a64fx_hwb_unassign_blade c blade s = .ok (err, s')) : Quiet hw s.dev s'.dev := by
  unfold oss_a64fx_hwb_unassign_blade at h
  split_ifs at h
  · cases h
    exact .refl _
  · simp only [Loops.bind_eq_ok] at h
    obtain ⟨t, hlock, x, hfind, u, hunlock, hret⟩ := h
    cases hret
    rw [← (preempt_of_spin_lock_dev hlock).1] at ho ⊢
    rw [dev_of_spin_unlock_dev hunlock]
    exact quiet_of_unassign_find (s := get_cpu t) ho hfind

/-! ## BB_ALLOC -/

/-- The allocation `a` comes, and its blade of the CMG `cmg` is taken. -/
structure Adds (cmg : Fin MAX_NUM_CMG) (a : a64fx_task_allocation) (d d' : a64fx_hwb_device) :
    Prop where
  table : SameTable d d'
  allocs : d'.allocs.Perm (a :: d.allocs)
  bb : ∀ i b, d'.bb i b = true ↔ d.bb i b = true ∨ (i = cmg ∧ b = a.blade)

/-- A BB_ALLOC on CMG `cmg` takes blade `b`: it is the first that is free, there is
memory for what it adds, and the group's list has nothing for the blade yet. -/
structure Registers (c : Call hw) (cmg : Fin MAX_NUM_CMG) (s : Kernel) (b : ℕ) : Prop where
  blade : firstZero (s.dev.cmgs cmg).bb_active MAX_BB_PER_CMG = b
  lt : b < s.dev.num_bb_per_cmg
  memory : c.kmalloc_alloc = true
  mapping : ∃ m t, Mapped c s m t ∧ get_allocation (s.dev.cmgs cmg) m b = none

theorem Mapped.get {t : Kernel} {m : a64fx_task_mapping} (h : Mapped c s m t) :
    get_taskmap t.dev c.task = some m := by
  cases h with
  | found m hget => exact hget
  | created =>
      have hhead : ∀ (m : a64fx_task_mapping) (ms : List a64fx_task_mapping),
          m.group = c.task.tgid →
            Keyed.lookup a64fx_task_mapping.group c.task.tgid (m :: ms) = some m :=
        fun m ms hg => Keyed.lookup_cons_self hg
      exact hhead _ _ rfl

/-- There is one mapping that a BB_ALLOC works with. -/
theorem Mapped.unique {t t' : Kernel} {m m' : a64fx_task_mapping} (h : Mapped c s m t)
    (h' : Mapped c s m' t') : m = m' := by
  have heq := (allocate_taskmap_of_mapped h).symm.trans (allocate_taskmap_of_mapped h')
  exact Option.some.inj (congrArg Prod.fst heq)

/-- A new mapping has no allocation. -/
theorem Mapped.sheds {t : Kernel} {m : a64fx_task_mapping} (h : Mapped c s m t) :
    Sheds hw s.dev t.dev := by
  cases h with
  | found => exact (Quiet.refl _).sheds
  | created =>
      have hplaces : (s.dev.map_group c.task).places = s.dev.places := rfl
      refine ⟨⟨rfl, rfl, fun _ => ⟨rfl, rfl, rfl⟩, fun _ _ => ⟨rfl, rfl, rfl⟩⟩, ?_, ?_,
        fun _ _ hb => hb, fun _ _ hb => Or.inl hb⟩
      · rw [hplaces]
      · exact fun hd x hx => hd x hx

theorem Mapped.adds {t : Kernel} {m : a64fx_task_mapping} (h : Mapped c s m t)
    (hadds : Adds cmg a t.dev d) : Adds cmg a s.dev d := by
  have hsheds : Sheds hw s.dev t.dev := h.sheds
  have hallocs : t.dev.allocs = s.dev.allocs := by
    cases h with
    | found => rfl
    | created => rfl
  have hbb : ∀ i b, t.dev.bb i b = s.dev.bb i b := by
    intro i b
    rw [a64fx_hwb_device.bb, a64fx_hwb_device.bb, h.cmgs]
  refine ⟨hsheds.table.trans hadds.table, ?_, fun i b => ?_⟩
  · rw [← hallocs]
    exact hadds.allocs
  · rw [← hbb]
    exact hadds.bb i b

theorem perm_held {l : List a64fx_task_mapping} {g : ℕ} {m : a64fx_task_mapping}
    (h : Keyed.lookup a64fx_task_mapping.group g l = some m) :
    ((Keyed.modify a64fx_task_mapping.group g (fun m =>
      { m with allocs := a :: m.allocs, num_allocs := m.num_allocs + 1 }) l).flatMap
        a64fx_task_mapping.allocs).Perm (a :: l.flatMap a64fx_task_mapping.allocs) := by
  induction l with
  | nil => cases h
  | cons y l ih =>
      rw [Keyed.modify]
      by_cases hy : y.group = g
      · rw [if_pos hy, List.flatMap_cons, List.flatMap_cons]
        exact .refl _
      · rw [Keyed.lookup_cons_of_ne hy] at h
        rw [if_neg hy, List.flatMap_cons, List.flatMap_cons]
        exact ((ih h).append_left y.allocs).trans List.perm_middle

theorem adds_hold_alloc {task : task_struct} (hget : get_taskmap d task = some tm)
    (hb : a.blade < 64) : Adds cmg a d (d.hold_alloc tm cmg a) := by
  refine ⟨sameTable_hold_alloc, perm_held (m := tm) ?_, fun i b => bb_hold_alloc hb i b⟩
  obtain ⟨-, hg⟩ := mem_of_get_taskmap hget
  rw [hg]
  exact hget

/-- What the search for the blade decides, with the mapping at hand. -/
theorem Mapped.registers_iff {t : Kernel} {m : a64fx_task_mapping} (h : Mapped c s m t) {b : ℕ} :
    Registers c cmg s b ↔ firstZero (s.dev.cmgs cmg).bb_active MAX_BB_PER_CMG = b ∧
      b < s.dev.num_bb_per_cmg ∧ is_registered c cmg m b t = true := by
  rw [is_registered, h.cmgs, Bool.and_eq_true, Option.isNone_iff_eq_none]
  constructor
  · rintro ⟨hblade, hbit, hmem, m', t', h', hnone⟩
    rw [h'.unique h] at hnone
    exact ⟨hblade, hbit, hnone, hmem⟩
  · rintro ⟨hblade, hbit, hnone, hmem⟩
    exact ⟨hblade, hbit, hmem, m, t, h, hnone⟩

theorem dev_lock_of_allocate {mask : cpumask_t} {x : (ℤ × Option ℕ) × Kernel}
    (h : oss_a64fx_hwb_allocate c cmg.val mask s = .ok x) : s.locks.dev_lock = false := by
  unfold oss_a64fx_hwb_allocate at h
  rw [if_neg (cmg_in_range cmg), Loops.bind_eq_ok] at h
  obtain ⟨t, hlock, -⟩ := h
  unfold spin_lock_dev at hlock
  split_ifs at hlock with hheld
  exact Bool.eq_false_of_not_eq_true hheld

/-- The blade that is registered, with the mapping at hand. -/
theorem adds_allocated {t : Kernel} {m : a64fx_task_mapping} (h : Mapped c s m t) {b : ℕ}
    (hb : b < MAX_BB_PER_CMG) (mask : cpumask_t) :
    Adds cmg (init_allocation (t.dev.cmgs cmg) m b mask) s.dev
      (allocated c m cmg b mask t).dev := by
  have hb6 : b < 6 := hb
  have hblade := u8_natCast (show b < 256 by omega)
  refine h.adds (adds_hold_alloc h.get ?_)
  show u8 (b : ℤ) < 64
  omega

/-- **BB_ALLOC.** It adds the allocation it registers, or it adds none. -/
theorem adds_or_sheds_of_allocate {mask : cpumask_t} {ret : ℤ × Option ℕ}
    (hnum : s.dev.num_bb_per_cmg ≤ MAX_BB_PER_CMG)
    (h : oss_a64fx_hwb_allocate c cmg.val mask s = .ok (ret, s')) :
    (∃ b a, Registers c cmg s b ∧ a.cmg = u8 (s.dev.cmgs cmg).cmg_id ∧ a.blade = b ∧
        a.cpumask = mask ∧ Adds cmg a s.dev s'.dev) ∨
      ((∀ b, ¬Registers c cmg s b) ∧ Sheds hw s.dev s'.dev) := by
  have hlock := dev_lock_of_allocate h
  rcases mapped_or_no_memory c s with ⟨m, t, hm⟩ | ⟨hget, hmem⟩
  swap
  · -- no mapping, no allocation
    rw [allocate_no_memory hlock cmg mask hget hmem] at h
    cases h
    refine Or.inr ⟨?_, (Quiet.refl _).sheds⟩
    rintro b ⟨-, -, -, m, t, hm, -⟩
    rcases hm.mapping with hsome | hyes
    · exact hsome hget
    · rw [hmem] at hyes
      cases hyes
  rw [allocate_run hlock hnum cmg mask hm] at h
  have hs' : (blade_outcome c cmg mask m t).2 = s' := congrArg Prod.snd (Except.ok.inj h)
  rw [← hs']
  unfold blade_outcome
  rw [hm.cmgs, hm.num_bb]
  by_cases hreg : ∃ b, Registers c cmg s b
  · obtain ⟨b, hreg⟩ := hreg
    obtain ⟨rfl, hbit, his⟩ := hm.registers_iff.mp hreg
    have hb : firstZero (s.dev.cmgs cmg).bb_active MAX_BB_PER_CMG < 6 := lt_of_lt_of_le hbit hnum
    simp only [if_pos hbit, if_pos his]
    have hadds : Adds cmg _ s.dev _ := adds_allocated hm hb mask
    refine Or.inl ⟨_, _, hreg, ?_, ?_, ?_, hadds⟩
    · rw [init_allocation, hm.cmgs]
    · exact u8_natCast (by omega)
    · rfl
  · refine Or.inr ⟨fun b hb => hreg ⟨b, hb⟩, ?_⟩
    by_cases hbit : firstZero (s.dev.cmgs cmg).bb_active MAX_BB_PER_CMG < s.dev.num_bb_per_cmg
    · have his : ¬is_registered c cmg m (firstZero (s.dev.cmgs cmg).bb_active MAX_BB_PER_CMG) t :=
        fun his => hreg ⟨_, hm.registers_iff.mpr ⟨rfl, hbit, his⟩⟩
      simp only [if_pos hbit, if_neg his]
      exact hm.sheds
    · simp only [if_neg hbit]
      exact hm.sheds

end A64fxHwb
