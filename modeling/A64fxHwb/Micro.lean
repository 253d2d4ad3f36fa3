/-
The small steps an operation is made of.

`Micro l c ok s s'` is one elementary change of the state by the call `c`: one
effect on the device together with the register write that goes with it. Every
operation is a sequence of them (`Steps.lean`), and every invariant is shown
once for each of them, here for the base invariant and in the later files for
the registers.

Some small steps are of a `Kind` of their own, since each of them breaks an
invariant that the others keep. Two of these are slips: a window that is taken
over the recorded one, and a window register that is cleared in place of the
recorded one. The others are a blade that is taken, a blade that is given back,
whose register keeps its mask, a change of the number of open files, and a reset,
which takes from every group what it holds. `ok` says which kinds the call may
make. The base invariant holds whatever it says.
-/
import A64fxHwb.Invariant

set_option autoImplicit false

namespace A64fxHwb

open BitWord

variable {hw : Machine} {l : Load hw}

/-! ## The register writes -/

/-- What `smp_call_function_any` does with `oss_a64fx_hwb_allocate_func`. -/
def arm_blade (c : Call hw) (cmg : Fin MAX_NUM_CMG) (blade : ℤ) (mask : BitVec 64) (s : Kernel) :
    Kernel :=
  smp_call_function_any c (s.dev.cmgs cmg).cmgmask
    (fun cpu regs => (write_init_sync_bb hw cpu blade mask regs).2) s

/-- What `smp_call_function_single` does with `oss_a64fx_hwb_assign_func`. -/
def set_wr (c : Call hw) (cpu : ℤ) (window valid blade : ℤ) (s : Kernel) : Kernel :=
  smp_call_function_single c cpu
    (fun cpu regs => (write_assign_sync_wr cpu window valid blade regs).2) s

/-! ## Changing one allocation -/

namespace a64fx_task_allocation

/-- Window `w` recorded for CPU `k`, whose slot is `j`. -/
def take (a : a64fx_task_allocation) (j : Fin MAX_PE_PER_CMG) (k : ℕ) (w : ℤ) :
    a64fx_task_allocation :=
  { a with
    window := Function.update a.window j w
    assign_mask := cpumask_set_cpu k a.assign_mask
    assign_count := a.assign_count + 1 }

/-- No window recorded for CPU `k` any more. -/
def give (a : a64fx_task_allocation) (j : Fin MAX_PE_PER_CMG) (k : ℕ) : a64fx_task_allocation :=
  { a with
    window := Function.update a.window j A64FX_HWB_UNASSIGNED_WIN
    assign_mask := cpumask_clear_cpu k a.assign_mask
    assign_count := a.assign_count - 1 }

/-- CPU `k` taken out of the blade's CPUs. -/
def leave (a : a64fx_task_allocation) (k : ℕ) : a64fx_task_allocation :=
  { a with cpumask := cpumask_clear_cpu k a.cpumask }

theorem place_take (a : a64fx_task_allocation) (j : Fin MAX_PE_PER_CMG) (k : ℕ) (w : ℤ) :
    (a.take j k w).place = a.place := rfl

theorem place_give (a : a64fx_task_allocation) (j : Fin MAX_PE_PER_CMG) (k : ℕ) :
    (a.give j k).place = a.place := rfl

theorem place_leave (a : a64fx_task_allocation) (k : ℕ) : (a.leave k).place = a.place := rfl

@[simp] theorem getLsbD_leave (a : a64fx_task_allocation) (k k' : ℕ) :
    (a.leave k).cpumask.getLsbD k' = (a.cpumask.getLsbD k' && !decide (k = k')) :=
  getLsbD_clearBit a.cpumask k k'

end a64fx_task_allocation

section Sane

variable {a : a64fx_task_allocation}

/-- On one CMG, the slot of `k` is updated exactly when the CPU is `k`. -/
theorem update_slot {f : Fin MAX_PE_PER_CMG → ℤ} {v : ℤ} {k k' : ℕ} (hk : l.online.getLsbD k = true)
    (hk' : l.online.getLsbD k' = true) (hc : hw.cmg k' = hw.cmg k) :
    Function.update f (hw.slot k) v (hw.slot k') = if k' = k then v else f (hw.slot k') := by
  by_cases hkk : k' = k
  · subst hkk
    rw [if_pos rfl, Function.update_self]
  · rw [if_neg hkk, Function.update_of_ne]
    exact fun h => hkk (Machine.eq_of_slot (l.online_present k' hk') (l.online_present k hk) hc h)

/-- What is recorded after CPU `k` took a window. -/
theorem records_take {k : ℕ} (hk : l.online.getLsbD k = true) (hc : (hw.cmg k).val = a.cmg)
    (w k' w' : ℕ) : Records l (a.take (hw.slot k) k w) k' w' ↔
      (k' = k ∧ w' = w) ∨ (k' ≠ k ∧ Records l a k' w') := by
  constructor
  · rintro ⟨hk', hc', hw'⟩
    have hcc : hw.cmg k' = hw.cmg k := Fin.ext (hc'.trans hc.symm)
    simp only [a64fx_task_allocation.take, update_slot hk hk' hcc] at hw'
    by_cases hkk : k' = k
    · rw [if_pos hkk] at hw'
      exact Or.inl ⟨hkk, by omega⟩
    · rw [if_neg hkk] at hw'
      exact Or.inr ⟨hkk, hk', hc', hw'⟩
  · rintro (⟨rfl, rfl⟩ | ⟨hkk, hk', hc', hw'⟩)
    · exact ⟨hk, hc, by simp only [a64fx_task_allocation.take, Function.update_self]⟩
    · have hcc : hw.cmg k' = hw.cmg k := Fin.ext (hc'.trans hc.symm)
      refine ⟨hk', hc', ?_⟩
      simp only [a64fx_task_allocation.take, update_slot hk hk' hcc, if_neg hkk]
      exact hw'

/-- What is recorded after CPU `k` gave its window back. -/
theorem records_give {k : ℕ} (hk : l.online.getLsbD k = true) (hc : (hw.cmg k).val = a.cmg)
    (k' w' : ℕ) : Records l (a.give (hw.slot k) k) k' w' ↔ k' ≠ k ∧ Records l a k' w' := by
  constructor
  · rintro ⟨hk', hc', hw'⟩
    have hcc : hw.cmg k' = hw.cmg k := Fin.ext (hc'.trans hc.symm)
    simp only [a64fx_task_allocation.give, update_slot hk hk' hcc] at hw'
    by_cases hkk : k' = k
    · rw [if_pos hkk] at hw'
      change (-1 : ℤ) = w' at hw'
      omega
    · rw [if_neg hkk] at hw'
      exact ⟨hkk, hk', hc', hw'⟩
  · rintro ⟨hkk, hk', hc', hw'⟩
    have hcc : hw.cmg k' = hw.cmg k := Fin.ext (hc'.trans hc.symm)
    refine ⟨hk', hc', ?_⟩
    simp only [a64fx_task_allocation.give, update_slot hk hk' hcc, if_neg hkk]
    exact hw'

theorem Sane.take (hs : Sane l a) {k w : ℕ} (hk : l.online.getLsbD k = true)
    (hc : (hw.cmg k).val = a.cmg) (hmem : a.cpumask.getLsbD k = true) (hw4 : w < MAX_BW_PER_CMG) :
    Sane l (a.take (hw.slot k) k w) where
  cmg_lt := hs.cmg_lt
  blade_lt := hs.blade_lt
  window j := by
    rw [a64fx_task_allocation.take]
    by_cases hj : j = hw.slot k
    · subst hj
      simp only [Function.update_self]
      exact Or.inr ⟨by omega, by omega⟩
    · simp only [Function.update_of_ne hj]
      exact hs.window j
  assign_mask k' := by
    have hk64 : k < 64 := BitVec.lt_of_getLsbD hk
    simp only [a64fx_task_allocation.take, getLsbD_setBit, hk64, decide_true, Bool.true_and,
      Bool.or_eq_true, decide_eq_true_eq, hs.assign_mask k']
    constructor
    · rintro (⟨hk', hc', hne⟩ | rfl)
      · -- a CPU that had a window still has one, a new one if it is `k`
        have hcc : hw.cmg k' = hw.cmg k := Fin.ext (hc'.trans hc.symm)
        refine ⟨hk', hc', ?_⟩
        rw [update_slot hk hk' hcc]
        by_cases hkk : k' = k
        · rw [if_pos hkk]
          show (w : ℤ) ≠ -1
          omega
        · rw [if_neg hkk]
          exact hne
      · refine ⟨hk, hc, ?_⟩
        rw [Function.update_self]
        show (w : ℤ) ≠ -1
        omega
    · rintro ⟨hk', hc', hne⟩
      have hcc : hw.cmg k' = hw.cmg k := Fin.ext (hc'.trans hc.symm)
      rw [update_slot hk hk' hcc] at hne
      by_cases hkk : k' = k
      · exact Or.inr hkk.symm
      · rw [if_neg hkk] at hne
        exact Or.inl ⟨hk', hc', hne⟩
  subset k' := by
    simp only [a64fx_task_allocation.take, getLsbD_setBit, Bool.or_eq_true, Bool.and_eq_true,
      decide_eq_true_eq]
    rintro (h | ⟨-, rfl⟩)
    · exact hs.subset k' h
    · exact hmem
  count := by
    have hcount := hs.count
    simp only [a64fx_task_allocation.take]
    cases hm : a.assign_mask.getLsbD k with
    | true =>
        -- taken over: the count grows and the mask does not
        rw [cpumask_set_cpu, setBit_of_getLsbD hm]
        omega
    | false =>
        have hwt := weight_setBit (BitVec.lt_of_getLsbD hk) hm
        rw [cpumask_set_cpu, hwt]
        omega

theorem Sane.give (hs : Sane l a) {k w : ℕ} (hr : Records l a k w) :
    Sane l (a.give (hw.slot k) k) where
  cmg_lt := hs.cmg_lt
  blade_lt := hs.blade_lt
  window j := by
    rw [a64fx_task_allocation.give]
    by_cases hj : j = hw.slot k
    · subst hj
      exact Or.inl (Function.update_self _ _ _)
    · simp only [Function.update_of_ne hj]
      exact hs.window j
  assign_mask k' := by
    simp only [a64fx_task_allocation.give, getLsbD_clearBit, Bool.and_eq_true, Bool.not_eq_true',
      decide_eq_false_iff_not, hs.assign_mask k']
    constructor
    · rintro ⟨⟨hk', hc', hne⟩, hkk⟩
      refine ⟨hk', hc', ?_⟩
      rw [update_slot hr.1 hk' (Fin.ext (hc'.trans hr.2.1.symm)), if_neg (Ne.symm hkk)]
      exact hne
    · rintro ⟨hk', hc', hne⟩
      rw [update_slot hr.1 hk' (Fin.ext (hc'.trans hr.2.1.symm))] at hne
      by_cases hkk : k' = k
      · rw [if_pos hkk] at hne
        exact absurd rfl hne
      · rw [if_neg hkk] at hne
        exact ⟨⟨hk', hc', hne⟩, Ne.symm hkk⟩
  subset k' := by
    simp only [a64fx_task_allocation.give, getLsbD_clearBit, Bool.and_eq_true]
    exact fun h => hs.subset k' h.1
  count := by
    have hcount := hs.count
    have hwt := weight_clearBit (hs.assigned hr)
    simp only [a64fx_task_allocation.give, cpumask_clear_cpu]
    omega

theorem Sane.leave (hs : Sane l a) {k : ℕ} (hk : a.assign_mask.getLsbD k = false) :
    Sane l (a.leave k) where
  cmg_lt := hs.cmg_lt
  blade_lt := hs.blade_lt
  window := hs.window
  assign_mask := hs.assign_mask
  subset k' h := by
    rw [a64fx_task_allocation.getLsbD_leave, Bool.and_eq_true, Bool.not_eq_true',
      decide_eq_false_iff_not]
    refine ⟨hs.subset k' h, ?_⟩
    rintro rfl
    have hk' : a.assign_mask.getLsbD k = true := h
    rw [hk] at hk'
    exact Bool.noConfusion hk'
  count := hs.count

/-- Fewer windows recorded, and none of them lost: an empty assign mask means
that nothing is recorded. -/
theorem Sane.not_records (hs : Sane l a) (h0 : a.assign_mask = 0) (k w : ℕ) : ¬Records l a k w := by
  intro hr
  have hk := hs.assigned hr
  rw [h0] at hk
  simp at hk

end Sane

/-! ## The small steps -/

/-- The kinds of small step that some invariant does not survive. -/
inductive Kind
  /-- A window is taken although the allocation records one for the CPU. -/
  | reassign
  /-- Register 0 is cleared instead of the one of the recorded window. -/
  | misdirected
  /-- A group gets a mapping. -/
  | map
  /-- A blade is taken. -/
  | take
  /-- A blade is given back. -/
  | release
  /-- The open files are counted anew. -/
  | count
  /-- The groups lose what they hold. -/
  | reset
  deriving DecidableEq

/-- The mask a blade can be allocated with: online CPUs, on one CMG as far as
the table knows them, and the table knows one. -/
structure Accepted (l : Load hw) (online : cpumask_t) (cmg : Fin MAX_NUM_CMG) (mask : cpumask_t) :
    Prop where
  online : ∀ k, mask.getLsbD k = true → online.getLsbD k = true
  cmg : ∀ k, mask.getLsbD k = true → l.online.getLsbD k = true → hw.cmg k = cmg
  known : ∃ k, mask.getLsbD k = true ∧ l.online.getLsbD k = true

/-- What `oss_a64fx_hwb_reset_ioctl` leaves of the device. -/
def a64fx_hwb_device.reset (d : a64fx_hwb_device) : a64fx_hwb_device :=
  { d with
    task_list := []
    num_tasks := 0
    active_count := 0
    cmgs := fun i =>
      { d.cmgs i with
        bb_active := 0
        pe_map := fun j => { (d.cmgs i).pe_map j with bw_map := 0 } } }

/-- One elementary change by the call `c`, which may be of the kinds `ok`. -/
inductive Micro (l : Load hw) (c : Call hw) (ok : Kind → Prop) (s : Kernel) : Kernel → Prop
  | locks (L : Locks) (n : ℤ) : Micro l c ok s { s with locks := L, preempt_count := n }
  | count (n : ℤ) (hok : ok .count) :
      Micro l c ok s { s with dev := { s.dev with active_count := n } }
  | map_group (hnew : ∀ m ∈ s.dev.task_list, m.group ≠ c.task.tgid) (hok : ok .map) :
      Micro l c ok s { s with dev := s.dev.map_group c.task }
  | unmap_group (m : a64fx_task_mapping) (hm : m ∈ s.dev.task_list) (hg : m.group = c.task.tgid)
      (hempty : m.allocs = []) : Micro l c ok s { s with dev := s.dev.unmap_group m.group }
  | take_blade (m : a64fx_task_mapping) (cmg : Fin MAX_NUM_CMG) (b : ℕ) (mask : cpumask_t)
      (hm : m ∈ s.dev.task_list) (hg : m.group = c.task.tgid) (hb : b < MAX_BB_PER_CMG)
      (hfree : s.dev.bb cmg b = false) (hmask : Accepted l c.online cmg mask) (hok : ok .take) :
      Micro l c ok s { arm_blade c cmg b (cpumask_to_ppemask (s.dev.cmgs cmg) mask) s with
        dev := s.dev.hold_alloc m cmg (init_allocation (s.dev.cmgs cmg) m b mask) }
  | give_blade (tm : a64fx_task_mapping) (cmg : Fin MAX_NUM_CMG) (a : a64fx_task_allocation)
      (hg : tm.group = c.task.tgid) (ha : Held s.dev tm.group a) (hc : a.cmg = cmg.val)
      (hempty : a.assign_mask = 0) (hok : ok .release) :
      Micro l c ok s { s with dev := s.dev.drop_alloc tm cmg a }
  | take_window (tm : a64fx_task_mapping) (a : a64fx_task_allocation) (k w : ℕ)
      (hg : tm.group = c.task.tgid) (ha : Held s.dev tm.group a) (hk : l.online.getLsbD k = true)
      (hc : (hw.cmg k).val = a.cmg) (hmem : a.cpumask.getLsbD k = true) (hw4 : w < MAX_BW_PER_CMG)
      (hfree : s.dev.bw (hw.cmg k) (hw.slot k) w = false)
      (hok : a.window (hw.slot k) = A64FX_HWB_UNASSIGNED_WIN ∨ ok .reassign) :
      Micro l c ok s { set_wr c k w 1 a.blade s with
        dev := s.dev.take_window tm (hw.cmg k) (hw.slot k) w (a.take (hw.slot k) k w) }
  | give_window (tm : a64fx_task_mapping) (a : a64fx_task_allocation) (k w wr : ℕ)
      (win_blades : Fin MAX_BW_PER_CMG → ℤ)
      (hg : tm.group = c.task.tgid) (ha : Held s.dev tm.group a) (hr : Records l a k w)
      (hok : wr = w ∨ (wr = 0 ∧ ok .misdirected)) :
      Micro l c ok s { set_wr c k wr 0 0 s with
        dev := s.dev.give_window tm (hw.cmg k) (hw.slot k) w win_blades (a.give (hw.slot k) k) }
  | leave_blade (tm : a64fx_task_mapping) (cmg : Fin MAX_NUM_CMG) (a : a64fx_task_allocation)
      (hg : tm.group = c.task.tgid) (ha : Held s.dev tm.group a) (hc : a.cmg = cmg.val)
      (hmem : a.cpumask.getLsbD c.cpu = true) (hfree : a.assign_mask.getLsbD c.cpu = false)
      (hrest : (a.leave c.cpu).cpumask ≠ 0) :
      Micro l c ok s
        { arm_blade c cmg a.blade
            (cpumask_to_ppemask (s.dev.cmgs cmg) (a.leave c.cpu).cpumask) s with
          dev := s.dev.store_alloc tm (a.leave c.cpu) }
  | reset (hreset : ok .reset) (hok : ok .release ∨ ∀ g a, ¬Held s.dev g a) :
      Micro l c ok s { on_each_cpu c (asm_reset_func hw) 0 s with dev := s.dev.reset }

section Preservation

variable {c : Call hw} {ok : Kind → Prop} {s s' : Kernel}

/-! ## What a small step preserves -/

/-- The fields `new_allocation` fills in, once the table is known. -/
theorem init_allocation_spec {d : a64fx_hwb_device} (ht : Table l d) (cmg : Fin MAX_NUM_CMG)
    (m : a64fx_task_mapping) {b : ℕ} (hb : b < MAX_BB_PER_CMG) (mask : cpumask_t) :
    (init_allocation (d.cmgs cmg) m b mask).cmg = cmg.val ∧
      (init_allocation (d.cmgs cmg) m b mask).blade = b := by
  have hc : cmg.val < 4 := cmg.isLt
  have hb6 : b < 6 := hb
  refine ⟨?_, u8_natCast (by omega)⟩
  rw [init_allocation, ht.cmg_id cmg]
  exact u8_natCast (by omega)

theorem Sane.init {d : a64fx_hwb_device} (ht : Table l d) (cmg : Fin MAX_NUM_CMG)
    (m : a64fx_task_mapping) {b : ℕ} (hb : b < MAX_BB_PER_CMG) (mask : cpumask_t) :
    Sane l (init_allocation (d.cmgs cmg) m b mask) where
  cmg_lt := by rw [(init_allocation_spec ht cmg m hb mask).1]; exact cmg.isLt
  blade_lt := by rw [(init_allocation_spec ht cmg m hb mask).2]; exact hb
  window _ := Or.inl rfl
  assign_mask k := by simp [init_allocation]
  subset k h := by simp [init_allocation] at h
  count := by
    show (weight (0 : cpumask_t) : ℤ) ≤ 0
    rw [weight_zero]
    exact le_refl _

theorem SameTable.reset (d : a64fx_hwb_device) : SameTable d d.reset :=
  ⟨rfl, rfl, fun _ => ⟨rfl, rfl, rfl⟩, fun _ _ => ⟨rfl, rfl, rfl⟩⟩

theorem not_held_reset (d : a64fx_hwb_device) (g : ℕ) (a : a64fx_task_allocation) :
    ¬Held d.reset g a := by
  rintro ⟨m, hm, -⟩
  cases hm

/-- No small step touches the core table. -/
theorem Micro.sameTable (h : Micro l c ok s s') : SameTable s.dev s'.dev := by
  cases h with
  | locks L n => exact SameTable.refl _
  | count n => exact ⟨rfl, rfl, fun _ => ⟨rfl, rfl, rfl⟩, fun _ _ => ⟨rfl, rfl, rfl⟩⟩
  | map_group => exact ⟨rfl, rfl, fun _ => ⟨rfl, rfl, rfl⟩, fun _ _ => ⟨rfl, rfl, rfl⟩⟩
  | unmap_group => exact ⟨rfl, rfl, fun _ => ⟨rfl, rfl, rfl⟩, fun _ _ => ⟨rfl, rfl, rfl⟩⟩
  | take_blade => exact sameTable_hold_alloc
  | give_blade => exact sameTable_drop_alloc
  | take_window => exact sameTable_take_window _ _
  | give_window => exact sameTable_give_window _ _ _
  | leave_blade => exact ⟨rfl, rfl, fun _ => ⟨rfl, rfl, rfl⟩, fun _ _ => ⟨rfl, rfl, rfl⟩⟩
  | reset => exact SameTable.reset _

/-- No two allocations of the blade that was free until now. -/
theorem Inv.fresh_place {d : a64fx_hwb_device} (hi : Inv l d) {cmg : Fin MAX_NUM_CMG} {b : ℕ}
    (hfree : d.bb cmg b = false) {g : ℕ} {x : a64fx_task_allocation} (hx : Held d g x) :
    x.place ≠ (cmg.val, b) := by
  intro hp
  have hc : x.cmg = cmg.val := congrArg Prod.fst hp
  have hb : x.blade = b := congrArg Prod.snd hp
  have hbit := hi.bb_of_held hx hc
  rw [hb, hfree] at hbit
  exact Bool.noConfusion hbit

/-- The lists stay well formed. -/
theorem Micro.lists (hi : Inv l s.dev) (h : Micro l c ok s s') : Lists s'.dev := by
  cases h with
  | locks L n => exact hi.lists
  | count n => exact ⟨hi.lists.groups, hi.lists.num_tasks, hi.lists.mapping⟩
  | map_group hnew => exact hi.lists.map_group hnew
  | unmap_group m hm => exact hi.lists.unmap_group hm
  | take_blade m cmg b mask hm hg hb hfree =>
      obtain ⟨hc, hbl⟩ := init_allocation_spec hi.table cmg m hb mask
      refine hi.lists.hold_alloc hm rfl (fun x hx => ?_) rfl
      rw [a64fx_task_allocation.place, a64fx_task_allocation.place, hc, hbl]
      exact hi.fresh_place hfree ⟨m, hm, rfl, hx⟩
  | give_blade tm cmg a hg ha => exact hi.lists.drop_alloc ha
  | take_window tm a k w hg ha =>
      exact (hi.lists.store_alloc ha (a.place_take (hw.slot k) k w) rfl).congr rfl rfl
  | give_window tm a k w wr wb hg ha =>
      exact (hi.lists.store_alloc ha (a.place_give (hw.slot k) k) rfl).congr rfl rfl
  | leave_blade tm cmg a hg ha => exact hi.lists.store_alloc ha (a.place_leave c.cpu) rfl
  | reset => exact ⟨List.nodup_nil, rfl, fun m hm => by cases hm⟩

/-- The only thread a small step can bring in is the caller, with a mapping for its group. -/
theorem Micro.tasks (h : Micro l c ok s s') {t : task_struct} (ht : t ∈ s'.dev.tasks) :
    (t = c.task ∧ ok .map) ∨ t ∈ s.dev.tasks := by
  cases h with
  | locks L n => exact Or.inr ht
  | count n => exact Or.inr ht
  | map_group hnew hok =>
      rcases List.mem_cons.mp ht with hself | ht
      · exact Or.inl ⟨hself, hok⟩
      · exact Or.inr ht
  | unmap_group m hm => exact Or.inr (tasks_unmap_group ht)
  | take_blade m cmg b mask => exact Or.inr (tasks_with_taskmap (by intro _; rfl) ht)
  | give_blade tm cmg a => exact Or.inr (tasks_with_taskmap (by intro _; rfl) ht)
  | take_window tm a k w => exact Or.inr (tasks_with_taskmap (by intro _; rfl) ht)
  | give_window tm a k w wr wb => exact Or.inr (tasks_with_taskmap (by intro _; rfl) ht)
  | leave_blade tm cmg a => exact Or.inr (tasks_with_taskmap (by intro _; rfl) ht)
  | reset => cases ht

/-- `active_count` is only written by the steps that are meant to, and by a reset. -/
theorem Micro.active_count (h : Micro l c ok s s') (hcount : ¬ok .count) (hreset : ¬ok .reset) :
    s'.dev.active_count = s.dev.active_count := by
  cases h with
  | count n hok => exact absurd hok hcount
  | reset hok => exact absurd hok hreset
  | _ => rfl

/-- Where an allocation that group `g` holds after a small step comes from: it
was held before, or the call made it or changed it, and is one of the group. -/
inductive Stems (l : Load hw) (c : Call hw) (ok : Kind → Prop) (s : Kernel) (g : ℕ) :
    a64fx_task_allocation → Prop
  | kept (x : a64fx_task_allocation) (hx : Held s.dev g x) : Stems l c ok s g x
  | made (m : a64fx_task_mapping) (cmg : Fin MAX_NUM_CMG) (b : ℕ) (mask : cpumask_t)
      (hm : m ∈ s.dev.task_list) (hg : g = c.task.tgid) (hb : b < MAX_BB_PER_CMG)
      (hmask : Accepted l c.online cmg mask) (hfree : s.dev.bb cmg b = false) (hok : ok .take) :
      Stems l c ok s g (init_allocation (s.dev.cmgs cmg) m b mask)
  | took (a : a64fx_task_allocation) (k w : ℕ) (hg : g = c.task.tgid) (ha : Held s.dev g a)
      (hk : l.online.getLsbD k = true) (hc : (hw.cmg k).val = a.cmg)
      (hmem : a.cpumask.getLsbD k = true) (hw4 : w < MAX_BW_PER_CMG)
      (hok : a.window (hw.slot k) = A64FX_HWB_UNASSIGNED_WIN ∨ ok .reassign) :
      Stems l c ok s g (a.take (hw.slot k) k w)
  | gave (a : a64fx_task_allocation) (k w : ℕ) (hg : g = c.task.tgid) (ha : Held s.dev g a)
      (hr : Records l a k w) : Stems l c ok s g (a.give (hw.slot k) k)
  | left (a : a64fx_task_allocation) (hg : g = c.task.tgid) (ha : Held s.dev g a)
      (hfree : a.assign_mask.getLsbD c.cpu = false) (hrest : (a.leave c.cpu).cpumask ≠ 0) :
      Stems l c ok s g (a.leave c.cpu)

/-- **What is held after a small step** is what was held before it, and what the
call made of something of its own group. -/
theorem Micro.held (hi : Inv l s.dev) (h : Micro l c ok s s') {g : ℕ} {x : a64fx_task_allocation}
    (hx : Held s'.dev g x) : Stems l c ok s g x := by
  cases h with
  | locks L n => exact .kept x hx
  | count n => exact .kept x hx
  | map_group hnew => exact .kept x ((held_map_group _ g x).mp hx)
  | unmap_group m hm hg hempty => exact .kept x ((held_unmap_group hi.lists hm hempty g x).mp hx)
  | take_blade m cmg b mask hm hg hb hfree hmask hok =>
      rcases (held_hold_alloc hi.lists hm rfl g x).mp hx with hx | ⟨rfl, rfl⟩
      · exact .kept x hx
      · exact .made m cmg b mask hm hg hb hmask hfree hok
  | give_blade tm cmg a hg ha => exact .kept x ((hi.held_drop ha g x).mp hx).1
  | take_window tm a k w hg ha hk hc hmem hw4 hfree hok =>
      rcases (hi.held_store ha (a.place_take (hw.slot k) k w) g x).mp hx with ⟨hx, -⟩ | ⟨rfl, rfl⟩
      · exact .kept x hx
      · exact .took a k w hg ha hk hc hmem hw4 hok
  | give_window tm a k w wr wb hg ha hr =>
      rcases (hi.held_store ha (a.place_give (hw.slot k) k) g x).mp hx with ⟨hx, -⟩ | ⟨rfl, rfl⟩
      · exact .kept x hx
      · exact .gave a k w hg ha hr
  | leave_blade tm cmg a hg ha hc hmem hfree hrest =>
      rcases (hi.held_store ha (a.place_leave c.cpu) g x).mp hx with ⟨hx, -⟩ | ⟨rfl, rfl⟩
      · exact .kept x hx
      · exact .left a hg ha hfree hrest
  | reset => exact absurd hx (not_held_reset _ g x)

/-- Every held allocation stays sane. -/
theorem Micro.sane (hi : Inv l s.dev) (h : Micro l c ok s s') (g : ℕ) (x : a64fx_task_allocation)
    (hx : Held s'.dev g x) : Sane l x := by
  cases h.held hi hx with
  | kept _ hx => exact hi.sane g x hx
  | made m cmg b mask hm hg hb hmask => exact Sane.init hi.table cmg m hb mask
  | took a k w hg ha hk hc hmem hw4 hok => exact (hi.sane g a ha).take hk hc hmem hw4
  | gave a k w hg ha hr => exact (hi.sane g a ha).give hr
  | left a hg ha hfree hrest => exact (hi.sane g a ha).leave hfree

/-- A group that is given a free blade acquires it. -/
theorem blades_acquires (hi : Inv l s.dev) {m : a64fx_task_mapping} {cmg : Fin MAX_NUM_CMG} {b : ℕ}
    (mask : cpumask_t) (hm : m ∈ s.dev.task_list) (hb : b < MAX_BB_PER_CMG)
    (hfree : s.dev.bb cmg b = false) :
    Pool.Acquires (blades s.dev)
      (blades (s.dev.hold_alloc m cmg (init_allocation (s.dev.cmgs cmg) m b mask)))
      m.group (cmg.val, b) := by
  obtain ⟨hc, hbl⟩ := init_allocation_spec hi.table cmg m hb mask
  have hplace : (init_allocation (s.dev.cmgs cmg) m b mask).place = (cmg.val, b) := by
    rw [a64fx_task_allocation.place, hc, hbl]
  have hb64 : (init_allocation (s.dev.cmgs cmg) m b mask).blade < 64 := by
    have hb6 : b < 6 := hb
    omega
  refine ⟨?_, fun p => ?_, fun g p => ?_⟩
  · rintro ⟨c', hc', hbit⟩
    rw [show c' = cmg from Fin.ext hc', hfree] at hbit
    exact Bool.noConfusion hbit
  · simp only [A64fxHwb.blades, bb_hold_alloc hb64, hbl, Prod.ext_iff]
    constructor
    · rintro ⟨c', hc', hbit | ⟨rfl, hbit⟩⟩
      · exact Or.inl ⟨c', hc', hbit⟩
      · exact Or.inr ⟨hc'.symm, hbit⟩
    · rintro (⟨c', hc', hbit⟩ | ⟨h1, h2⟩)
      · exact ⟨c', hc', Or.inl hbit⟩
      · exact ⟨cmg, h1.symm, Or.inr ⟨rfl, h2⟩⟩
  · simp only [A64fxHwb.blades, held_hold_alloc hi.lists hm rfl]
    constructor
    · rintro ⟨x, hx | ⟨rfl, rfl⟩, hp⟩
      · exact Or.inl ⟨x, hx, hp⟩
      · exact Or.inr ⟨rfl, hp.symm.trans hplace⟩
    · rintro (⟨x, hx, hp⟩ | ⟨rfl, rfl⟩)
      · exact ⟨x, Or.inl hx, hp⟩
      · exact ⟨_, Or.inr ⟨rfl, rfl⟩, hplace⟩

/-- A group whose allocation is dropped releases the blade. -/
theorem blades_releases (hi : Inv l s.dev) {tm : a64fx_task_mapping} {cmg : Fin MAX_NUM_CMG}
    {a : a64fx_task_allocation} (ha : Held s.dev tm.group a) (hc : a.cmg = cmg.val) :
    Pool.Releases (blades s.dev) (blades (s.dev.drop_alloc tm cmg a)) tm.group a.place := by
  have hplace : a.place = (cmg.val, a.blade) := by rw [a64fx_task_allocation.place, hc]
  refine ⟨⟨a, ha, rfl⟩, fun p => ?_, fun g p => ?_⟩
  · simp only [A64fxHwb.blades, bb_drop_alloc, hplace, ne_eq, Prod.ext_iff]
    constructor
    · rintro ⟨c', hc', hbit, hne⟩
      exact ⟨⟨c', hc', hbit⟩, fun h => hne ⟨Fin.ext (hc'.trans h.1), h.2⟩⟩
    · rintro ⟨⟨c', hc', hbit⟩, hne⟩
      refine ⟨c', hc', hbit, fun h => hne ⟨?_, h.2⟩⟩
      rw [← hc', h.1]
  · simp only [A64fxHwb.blades, hi.held_drop ha]
    constructor
    · rintro ⟨x, ⟨hx, hne⟩, rfl⟩
      exact ⟨⟨x, hx, rfl⟩, fun h => hne h.2⟩
    · rintro ⟨⟨x, hx, rfl⟩, hne⟩
      exact ⟨x, ⟨hx, fun h => hne ⟨(hi.unique hx ha h).1, h⟩⟩, rfl⟩

/-- **The blade pool moves as an allocator does**, and no blade is ever replaced. -/
theorem Micro.blades (hi : Inv l s.dev) (h : Micro l c ok s s') :
    Pool.Move False (blades s.dev) (blades s'.dev) := by
  cases h with
  | locks L n => exact .same ⟨fun _ => Iff.rfl, fun _ _ => Iff.rfl⟩
  | count n => exact .same ⟨fun _ => Iff.rfl, fun _ _ => Iff.rfl⟩
  | map_group hnew =>
      refine .same (blades_same (fun _ _ => rfl) fun g p => ?_)
      simp only [held_map_group]
  | unmap_group m hm hg hempty =>
      refine .same (blades_same (fun _ _ => rfl) fun g p => ?_)
      simp only [held_unmap_group hi.lists hm hempty]
  | take_blade m cmg b mask hm hg hb hfree =>
      -- the clear bit makes it an acquisition
      exact .acquires m.group (cmg.val, b) (blades_acquires hi mask hm hb hfree)
  | give_blade tm cmg a hg ha hc => exact .releases tm.group a.place (blades_releases hi ha hc)
  | take_window tm a k w hg ha =>
      have hp := a.place_take (hw.slot k) k w
      exact .same (blades_same (bb_take_window _ _) (places_store hi ha hp (hi.held_store ha hp)))
  | give_window tm a k w wr wb hg ha =>
      have hp := a.place_give (hw.slot k) k
      exact .same (blades_same (bb_give_window _ _ _) (places_store hi ha hp (hi.held_store ha hp)))
  | leave_blade tm cmg a hg ha =>
      have hp := a.place_leave c.cpu
      exact .same (blades_same (fun _ _ => rfl) (places_store hi ha hp (hi.held_store ha hp)))
  | reset =>
      refine .empties ⟨?_, ?_⟩
      · rintro p ⟨c', -, hbit⟩
        simp [a64fx_hwb_device.bb, a64fx_hwb_device.reset] at hbit
      · rintro g p ⟨x, hx, -⟩
        exact not_held_reset _ g x hx

/-- No bit beyond the blades of a CMG is ever set. -/
theorem Micro.blade_range (hi : Inv l s.dev) (h : Micro l c ok s s') (c' : Fin MAX_NUM_CMG) (b : ℕ)
    (hbit : s'.dev.bb c' b = true) : b < MAX_BB_PER_CMG := by
  cases h with
  | take_blade m cmg b' mask hm hg hb hfree =>
      obtain ⟨-, hbl⟩ := init_allocation_spec hi.table cmg m hb mask
      have hb6 : b' < 6 := hb
      rcases (bb_hold_alloc (by omega) c' b).mp hbit with h | ⟨-, h⟩
      · exact hi.blade_range c' b h
      · rw [h, hbl]
        exact hb
  | give_blade tm cmg a => exact hi.blade_range c' b ((bb_drop_alloc c' b).mp hbit).1
  | take_window tm a k w =>
      have h := (bb_take_window (hw.slot k) w c' b).symm.trans hbit
      exact hi.blade_range c' b h
  | give_window tm a k w wr wb =>
      have h := (bb_give_window (hw.slot k) w wb c' b).symm.trans hbit
      exact hi.blade_range c' b h
  | reset => simp [a64fx_hwb_device.bb, a64fx_hwb_device.reset] at hbit
  | _ => exact hi.blade_range c' b hbit

/-- The window bits after window `w` of CPU `k` was taken. -/
theorem taken_take_window {d : a64fx_hwb_device} {tm : a64fx_task_mapping}
    {a : a64fx_task_allocation} {k w : ℕ} (hk : l.online.getLsbD k = true)
    (hw4 : w < MAX_BW_PER_CMG) (r : ℕ × ℕ) :
    (windows l (d.take_window tm (hw.cmg k) (hw.slot k) w a)).taken r ↔
      (windows l d).taken r ∨ r = (k, w) := by
  have hw64 : w < 64 := lt_trans hw4 (by decide)
  simp only [windows, bw_take_window hw64, Prod.ext_iff]
  constructor
  · rintro ⟨hr, hbit | ⟨hc, hs, hw'⟩⟩
    · exact Or.inl ⟨hr, hbit⟩
    · exact Or.inr ⟨Machine.eq_of_slot (l.online_present _ hr) (l.online_present k hk) hc hs, hw'⟩
  · rintro (⟨hr, hbit⟩ | ⟨h1, h2⟩)
    · exact ⟨hr, Or.inl hbit⟩
    · rw [h1, h2]
      exact ⟨hk, Or.inr ⟨rfl, rfl, rfl⟩⟩

/-- The window bits after window `w` of CPU `k` was given back. -/
theorem taken_give_window {d : a64fx_hwb_device} {tm : a64fx_task_mapping}
    {a : a64fx_task_allocation} {k w : ℕ} {wb : Fin MAX_BW_PER_CMG → ℤ}
    (hk : l.online.getLsbD k = true) (r : ℕ × ℕ) :
    (windows l (d.give_window tm (hw.cmg k) (hw.slot k) w wb a)).taken r ↔
      (windows l d).taken r ∧ r ≠ (k, w) := by
  simp only [windows, bw_give_window, ne_eq, Prod.ext_iff]
  constructor
  · rintro ⟨hr, hbit, hne⟩
    exact ⟨⟨hr, hbit⟩, fun h => hne (by rw [h.1]; exact ⟨rfl, rfl, h.2⟩)⟩
  · rintro ⟨⟨hr, hbit⟩, hne⟩
    refine ⟨hr, hbit, fun h => hne ⟨?_, h.2.2⟩⟩
    exact Machine.eq_of_slot (l.online_present _ hr) (l.online_present k hk) h.1 h.2.1

/-- Taking a window over nothing is an acquisition, over a recorded window a
replacement. -/
theorem windows_take (hi : Inv l s.dev) {tm : a64fx_task_mapping} {a : a64fx_task_allocation}
    {k w : ℕ} (ha : Held s.dev tm.group a) (hk : l.online.getLsbD k = true)
    (hc : (hw.cmg k).val = a.cmg) (hw4 : w < MAX_BW_PER_CMG)
    (hfree : s.dev.bw (hw.cmg k) (hw.slot k) w = false) :
    let d' := s.dev.take_window tm (hw.cmg k) (hw.slot k) w (a.take (hw.slot k) k w)
    (a.window (hw.slot k) = A64FX_HWB_UNASSIGNED_WIN →
        Pool.Acquires (windows l s.dev) (windows l d') a.place (k, w)) ∧
      ∀ w₀ : ℕ, Records l a k w₀ →
        Pool.Replaces (windows l s.dev) (windows l d') a.place (k, w₀) (k, w) := by
  intro d'
  have hnot : ¬(windows l s.dev).taken (k, w) := by
    rintro ⟨-, hbit⟩
    rw [hfree] at hbit
    exact Bool.noConfusion hbit
  have htaken : ∀ r, (windows l d').taken r ↔ (windows l s.dev).taken r ∨ r = (k, w) :=
    fun r => taken_take_window hk hw4 r
  have hplace := a.place_take (hw.slot k) k w
  have hrec : ∀ p r, (windows l d').records p r ↔ ((windows l s.dev).records p r ∧ p ≠ a.place) ∨
      (p = a.place ∧ ((r.1 = k ∧ r.2 = w) ∨ (r.1 ≠ k ∧ Records l a r.1 r.2))) := by
    intro p r
    rw [← records_take hk hc]
    exact records_store hplace (hi.held_store ha hplace) p r
  refine ⟨fun hnone => ⟨hnot, htaken, fun p r => (hrec p r).trans ?_⟩,
    fun w₀ hr₀ => ⟨hnot, ⟨_, a, ha, rfl, hr₀⟩, htaken, fun p r => (hrec p r).trans ?_⟩⟩
  · constructor
    · rintro (⟨h, -⟩ | ⟨rfl, h | ⟨-, h⟩⟩)
      · exact Or.inl h
      · exact Or.inr ⟨rfl, Prod.ext h.1 h.2⟩
      · exact Or.inl ((records_of_held hi ha r).mpr h)
    · rintro (h | ⟨rfl, rfl⟩)
      · by_cases hp : p = a.place
        · subst hp
          have hr := (records_of_held hi ha r).mp h
          refine Or.inr ⟨rfl, Or.inr ⟨fun hrk => ?_, hr⟩⟩
          -- nothing is recorded for the CPU itself
          have hval : a.window (hw.slot k) = r.2 := hrk ▸ hr.2.2
          rw [hnone] at hval
          change (-1 : ℤ) = r.2 at hval
          omega
        · exact Or.inl ⟨h, hp⟩
      · exact Or.inr ⟨rfl, Or.inl ⟨rfl, rfl⟩⟩
  · constructor
    · rintro (⟨h, hp⟩ | ⟨rfl, h | ⟨hrk, h⟩⟩)
      · exact Or.inl ⟨h, fun h' => hp h'.1⟩
      · exact Or.inr ⟨rfl, Prod.ext h.1 h.2⟩
      · exact Or.inl ⟨(records_of_held hi ha r).mpr h, fun h' => hrk (by rw [h'.2])⟩
    · rintro (⟨h, hne⟩ | ⟨rfl, rfl⟩)
      · by_cases hp : p = a.place
        · subst hp
          have hr := (records_of_held hi ha r).mp h
          refine Or.inr ⟨rfl, Or.inr ⟨fun hrk => hne ⟨rfl, Prod.ext hrk ?_⟩, hr⟩⟩
          -- what is recorded for the CPU itself is the old window
          rw [hrk] at hr
          exact hr.unique hr₀
        · exact Or.inl ⟨h, hp⟩
      · exact Or.inr ⟨rfl, Or.inl ⟨rfl, rfl⟩⟩

/-- Giving back the recorded window is a release. -/
theorem windows_give (hi : Inv l s.dev) {tm : a64fx_task_mapping} {a : a64fx_task_allocation}
    {k w : ℕ} (wb : Fin MAX_BW_PER_CMG → ℤ) (ha : Held s.dev tm.group a) (hr : Records l a k w) :
    Pool.Releases (windows l s.dev)
      (windows l (s.dev.give_window tm (hw.cmg k) (hw.slot k) w wb (a.give (hw.slot k) k)))
      a.place (k, w) := by
  have hplace := a.place_give (hw.slot k) k
  refine ⟨⟨_, a, ha, rfl, hr⟩, fun r => taken_give_window hr.1 r, fun p r => ?_⟩
  refine (records_store hplace (hi.held_store ha hplace) p r).trans ?_
  rw [records_give hr.1 hr.2.1]
  constructor
  · rintro (⟨h, hp⟩ | ⟨rfl, hrk, h⟩)
    · exact ⟨h, fun h' => hp h'.1⟩
    · exact ⟨(records_of_held hi ha r).mpr h, fun h' => hrk (by rw [h'.2])⟩
  · rintro ⟨h, hne⟩
    by_cases hp : p = a.place
    · subst hp
      have hr' := (records_of_held hi ha r).mp h
      refine Or.inr ⟨rfl, fun hrk => hne ⟨rfl, Prod.ext hrk ?_⟩, hr'⟩
      rw [hrk] at hr'
      exact hr'.unique hr
    · exact Or.inl ⟨h, hp⟩

/-- No window is taken after a reset. -/
theorem windows_reset (l : Load hw) (d : a64fx_hwb_device) : (windows l d.reset).Empty := by
  refine ⟨?_, ?_⟩
  · rintro r ⟨-, hbit⟩
    simp [a64fx_hwb_device.bw, a64fx_hwb_device.reset] at hbit
  · rintro p r ⟨g, x, hx, -⟩
    exact not_held_reset _ g x hx

/-- What a small step does to the windows, with the register write that goes
with it. -/
inductive WindowStep (l : Load hw) (c : Call hw) (ok : Kind → Prop) (s s' : Kernel) : Prop
  | same (m : Pool.Same (windows l s.dev) (windows l s'.dev))
      (hregs : s'.regs.assign_sync_wr = s.regs.assign_sync_wr)
  | acquires (g : ℕ) (a : a64fx_task_allocation) (k w : ℕ) (hg : g = c.task.tgid)
      (ha : Held s.dev g a) (hk : l.online.getLsbD k = true) (hc : (hw.cmg k).val = a.cmg)
      (hw4 : w < MAX_BW_PER_CMG)
      (m : Pool.Acquires (windows l s.dev) (windows l s'.dev) a.place (k, w))
      (hregs : s'.regs = (set_wr c k w 1 a.blade s).regs)
  | replaces (hok : ok .reassign) (a : a64fx_task_allocation) (k w₀ w : ℕ)
      (m : Pool.Replaces (windows l s.dev) (windows l s'.dev) a.place (k, w₀) (k, w))
      (hregs : s'.regs = (set_wr c k w 1 a.blade s).regs)
  | releases (g : ℕ) (a : a64fx_task_allocation) (k w wr : ℕ) (hg : g = c.task.tgid)
      (ha : Held s.dev g a) (hr : Records l a k w) (hok : wr = w ∨ (wr = 0 ∧ ok .misdirected))
      (m : Pool.Releases (windows l s.dev) (windows l s'.dev) a.place (k, w))
      (hregs : s'.regs = (set_wr c k wr 0 0 s).regs)
  | empties (hreset : ok .reset) (m : (windows l s'.dev).Empty)
      (hregs : s'.regs = (on_each_cpu c (asm_reset_func hw) 0 s).regs)

theorem arm_blade_assign_sync_wr (cmg : Fin MAX_NUM_CMG) (blade : ℤ) (mask : BitVec 64)
    (s : Kernel) :
    (arm_blade c cmg blade mask s).regs.assign_sync_wr = s.regs.assign_sync_wr := by
  unfold arm_blade smp_call_function_any write_init_sync_bb
  by_cases h : (s.dev.cmgs cmg).cmgmask &&& c.online = 0
  · simp only [if_pos h]
  · by_cases hr : blade < 0 ∨ blade ≥ MAX_BB_PER_CMG ∨ mask = 0
    · simp only [if_neg h, if_pos hr]
    · simp only [if_neg h, if_neg hr]

theorem Micro.window_step (hi : Inv l s.dev) (h : Micro l c ok s s') : WindowStep l c ok s s' := by
  cases h with
  | locks L n => exact .same ⟨fun _ => Iff.rfl, fun _ _ => Iff.rfl⟩ rfl
  | count n => exact .same ⟨fun _ => Iff.rfl, fun _ _ => Iff.rfl⟩ rfl
  | map_group hnew =>
      refine .same ⟨fun _ => Iff.rfl, fun p r => ?_⟩ rfl
      simp only [A64fxHwb.windows, held_map_group]
  | unmap_group m hm hg hempty =>
      refine .same ⟨fun _ => Iff.rfl, fun p r => ?_⟩ rfl
      simp only [A64fxHwb.windows, held_unmap_group hi.lists hm hempty]
  | take_blade m cmg b mask hm hg hb hfree =>
      refine .same ⟨fun r => ?_, fun p r => ?_⟩ (arm_blade_assign_sync_wr _ _ _ _)
      · simp only [A64fxHwb.windows, bw_hold_alloc]
      · simp only [A64fxHwb.windows, held_hold_alloc hi.lists hm rfl]
        constructor
        · rintro ⟨g, x, hx | ⟨-, rfl⟩, hp, hr⟩
          · exact ⟨g, x, hx, hp, hr⟩
          · exact absurd hr ((Sane.init hi.table cmg m hb mask).not_records rfl r.1 r.2)
        · rintro ⟨g, x, hx, hp, hr⟩
          exact ⟨g, x, Or.inl hx, hp, hr⟩
  | give_blade tm cmg a hg ha hc hempty =>
      -- with an empty assign mask the dropped allocation recorded nothing
      refine .same ⟨fun r => ?_, fun p r => ?_⟩ rfl
      · simp only [A64fxHwb.windows, bw_drop_alloc]
      · simp only [A64fxHwb.windows, hi.held_drop ha]
        constructor
        · rintro ⟨g, x, ⟨hx, -⟩, hp, hr⟩
          exact ⟨g, x, hx, hp, hr⟩
        · rintro ⟨g, x, hx, hp, hr⟩
          refine ⟨g, x, ⟨hx, fun hpx => ?_⟩, hp, hr⟩
          rw [(hi.unique hx ha hpx).2] at hr
          exact (hi.sane _ a ha).not_records hempty r.1 r.2 hr
  | take_window tm a k w hg ha hk hc hmem hw4 hfree hok =>
      obtain ⟨hacq, hrep⟩ := windows_take hi ha hk hc hw4 hfree
      by_cases hnone : a.window (hw.slot k) = A64FX_HWB_UNASSIGNED_WIN
      · exact .acquires _ a k w hg ha hk hc hw4 (hacq hnone) rfl
      · -- the slot has a window already, and this one overwrites it
        obtain ⟨w₀, -, hr₀⟩ := ((hi.sane _ a ha).records_or_none hk hc).resolve_right hnone
        exact .replaces (hok.resolve_left hnone) a k w₀ w (hrep w₀ hr₀) rfl
  | give_window tm a k w wr wb hg ha hr hok =>
      exact .releases _ a k w wr hg ha hr hok (windows_give hi wb ha hr) rfl
  | leave_blade tm cmg a hg ha =>
      have hplace := a.place_leave c.cpu
      refine .same ⟨fun _ => Iff.rfl, fun p r => ?_⟩ (arm_blade_assign_sync_wr _ _ _ _)
      rw [records_store hplace (hi.held_store ha hplace)]
      constructor
      · rintro (⟨h, -⟩ | ⟨rfl, h⟩)
        · exact h
        · exact (records_of_held hi ha r).mpr h
      · intro h
        by_cases hp : p = a.place
        · subst hp
          exact Or.inr ⟨rfl, (records_of_held hi ha r).mp h⟩
        · exact Or.inl ⟨h, hp⟩
  | reset hreset => exact .empties hreset (windows_reset l _) rfl

/-- **The window pool moves as an allocator does**, but for the reassignment. -/
theorem Micro.windows (hi : Inv l s.dev) (h : Micro l c ok s s') :
    Pool.Move (ok .reassign) (windows l s.dev) (windows l s'.dev) := by
  cases h.window_step hi with
  | same m _ => exact .same m
  | acquires g a k w _ _ _ _ _ m _ => exact .acquires _ _ m
  | replaces hok a k w₀ w m _ => exact .replaces hok _ _ _ m
  | releases g a k w wr _ _ _ _ m _ => exact .releases _ _ m
  | empties _ m _ => exact .empties m

/-- A window that is lost stays lost until a reset. -/
theorem Micro.lost (hi : Inv l s.dev) (h : Micro l c ok s s') (hno : ¬ok .reset) {r : ℕ × ℕ}
    (hl : (A64fxHwb.windows l s.dev).Lost r) : (A64fxHwb.windows l s'.dev).Lost r := by
  cases h.window_step hi with
  | same m _ => exact hl.same m
  | acquires g a k w _ _ _ _ _ m _ => exact hl.acquires m
  | replaces _ a k w₀ w m _ => exact hl.replaces m
  | releases g a k w wr _ _ _ _ m _ => exact hl.releases m
  | empties hreset => exact absurd hreset hno

/-- No bit beyond the windows of a PE is ever set. -/
theorem Micro.window_range (hi : Inv l s.dev) (h : Micro l c ok s s') (k w : ℕ)
    (hk : l.online.getLsbD k = true) (hbit : s'.dev.bw (hw.cmg k) (hw.slot k) w = true) :
    w < MAX_BW_PER_CMG := by
  cases h with
  | take_blade m cmg b mask =>
      exact hi.window_range k w hk ((bw_hold_alloc (hw.cmg k) (hw.slot k) w).symm.trans hbit)
  | give_blade tm cmg a =>
      exact hi.window_range k w hk ((bw_drop_alloc (hw.cmg k) (hw.slot k) w).symm.trans hbit)
  | take_window tm a k' w' hg ha hk' hc hmem hw4 =>
      rcases (taken_take_window hk' hw4 (k, w)).mp ⟨hk, hbit⟩ with h | h
      · exact hi.window_range k w hk h.2
      · have hww : w = w' := (Prod.ext_iff.mp h).2
        rw [hww]
        exact hw4
  | give_window tm a k' w' wr wb hg ha hr =>
      exact hi.window_range k w hk ((taken_give_window hr.1 (k, w)).mp ⟨hk, hbit⟩).1.2
  | reset => simp [a64fx_hwb_device.bw, a64fx_hwb_device.reset] at hbit
  | _ => exact hi.window_range k w hk hbit

/-- **A small step preserves the base invariant**, whatever kinds it may be of. -/
theorem Micro.inv (hi : Inv l s.dev) (h : Micro l c ok s s') : Inv l s'.dev where
  table := h.sameTable.table hi.table
  lists := h.lists hi
  sane := h.sane hi
  blade_range := h.blade_range hi
  window_range := h.window_range hi
  blades_sound := (h.blades hi).sound hi.blades_sound hi.blades_exclusive
  blades_exclusive := (h.blades hi).exclusive hi.blades_sound hi.blades_exclusive
  blades_covered := (h.blades hi).covered not_false hi.blades_covered
  windows_sound := (h.windows hi).sound hi.windows_sound hi.windows_exclusive
  windows_exclusive := (h.windows hi).exclusive hi.windows_sound hi.windows_exclusive

end Preservation

end A64fxHwb
