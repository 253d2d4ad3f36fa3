/-
Which CPU writes a blade register does not matter.

The driver has a blade register written by any CPU of the CMG that is online, and leaves it
to the kernel which (`smp_call_function_any`). All CPUs of a CMG reach the same registers,
and the mask the kernel picks from holds CPUs of the CMG only, so every request has the
same reply and the same effect, faults included, whichever CPU is picked.
-/
import A64fxHwb.Range

set_option autoImplicit false

namespace A64fxHwb

open BitWord Loops Runs

variable {hw : Machine} {l : Load hw} {c : Call hw} {R : hwb_regs → Prop}
variable {e e' : Event hw} {s s' : Kernel}

/-! ## Calls that differ in the pick -/

/-- The same call with another choice. -/
def Call.repick (c : Call hw) (any : cpumask_t → ℕ)
    (any_mem : ∀ m : cpumask_t, m ≠ 0 → m.getLsbD (any m) = true) : Call hw :=
  { c with any := any, any_mem := any_mem }

/-- The same event with another choice. -/
def Event.repick (e : Event hw) (any : cpumask_t → ℕ)
    (any_mem : ∀ m : cpumask_t, m ≠ 0 → m.getLsbD (any m) = true) : Event hw :=
  ⟨e.call.repick any any_mem, e.request⟩

/-- The events differ in the CPU that is picked at most. -/
def Event.Alike (e e' : Event hw) : Prop := ∃ any any_mem, e' = e.repick any any_mem

/-- The mask of each CMG has CPUs of the CMG only. -/
def CmgMasks (hw : Machine) (d : a64fx_hwb_device) : Prop :=
  ∀ cmg k, (d.cmgs cmg).cmgmask.getLsbD k = true → hw.cmg k = cmg

theorem Table.cmgMasks {d : a64fx_hwb_device} (h : Table l d) : CmgMasks hw d :=
  fun cmg k hk => ((h.cmgmask cmg k).mp hk).2

section Repick

variable {any : cpumask_t → ℕ} {hany : ∀ m : cpumask_t, m ≠ 0 → m.getLsbD (any m) = true}

/-- The CPUs of one CMG write the same register. -/
theorem allocate_func_congr (info : hwb_allocate_info) {k k' : ℕ} (hc : hw.cmg k' = hw.cmg k)
    (regs : hwb_regs) :
    oss_a64fx_hwb_allocate_func hw info k' regs = oss_a64fx_hwb_allocate_func hw info k regs := by
  unfold oss_a64fx_hwb_allocate_func write_init_sync_bb
  rw [hc]

/-- **Whichever CPU of the CMG is picked**, the same is written. -/
theorem smp_any_repick (cmg : Fin MAX_NUM_CMG) {mask : cpumask_t}
    (hmask : ∀ k, mask.getLsbD k = true → hw.cmg k = cmg) (info : hwb_allocate_info) (s : Kernel) :
    smp_call_function_any (c.repick any hany) mask (oss_a64fx_hwb_allocate_func hw info) s =
      smp_call_function_any c mask (oss_a64fx_hwb_allocate_func hw info) s := by
  unfold smp_call_function_any
  by_cases h0 : mask &&& c.online = 0
  · rw [if_pos h0, if_pos (show mask &&& (c.repick any hany).online = 0 from h0)]
  · rw [if_neg h0, if_neg (show ¬mask &&& (c.repick any hany).online = 0 from h0)]
    have hcmg : ∀ k, (mask &&& c.online).getLsbD k = true → hw.cmg k = cmg := by
      intro k hk
      rw [BitVec.getLsbD_and, Bool.and_eq_true] at hk
      exact hmask k hk.1
    have hpick : hw.cmg (any (mask &&& c.online)) = hw.cmg (c.any (mask &&& c.online)) :=
      (hcmg _ (hany _ h0)).trans (hcmg _ (c.any_mem _ h0)).symm
    exact congrArg (fun regs => { s with regs := regs }) (allocate_func_congr info hpick s.regs)

/-- An empty mask is not written by anybody. -/
theorem smp_any_zero (c : Call hw) (mask : cpumask_t) (blade cmg : ℤ) (s : Kernel) :
    smp_call_function_any c mask
      (oss_a64fx_hwb_allocate_func hw { blade := blade, cmg := cmg, ppemask := 0 }) s = s := by
  unfold smp_call_function_any oss_a64fx_hwb_allocate_func write_init_sync_bb
  simp

/-! ## The functions that have a register written -/

theorem new_allocation_repick (h : CmgMasks hw s.dev) (cmg : Fin MAX_NUM_CMG)
    (taskmap : a64fx_task_mapping) (blade : ℕ) (cpumask : cpumask_t) :
    new_allocation (c.repick any hany) cmg taskmap blade cpumask s =
      new_allocation c cmg taskmap blade cpumask s := by
  unfold new_allocation
  simp only [smp_any_repick cmg (h cmg)]
  rfl

theorem register_allocation_repick (h : CmgMasks hw s.dev) (cmg : Fin MAX_NUM_CMG)
    (taskmap : a64fx_task_mapping) (blade : ℕ) (cpumask : cpumask_t) :
    register_allocation (c.repick any hany) cmg taskmap blade cpumask s =
      register_allocation c cmg taskmap blade cpumask s := by
  unfold register_allocation
  rw [new_allocation_repick h]

/-- A blade that is given back is not written, so there is nothing to pick. -/
theorem free_allocation_repick (cmg : Fin MAX_NUM_CMG) (taskmap : a64fx_task_mapping)
    (alloc : a64fx_task_allocation) (s : Kernel) :
    free_allocation (c.repick any hany) cmg taskmap alloc s =
      free_allocation c cmg taskmap alloc s := by
  unfold free_allocation
  simp only [smp_any_zero]
  rfl

theorem unregister_task_repick (taskmap : a64fx_task_mapping) (s : Kernel) :
    unregister_task (c.repick any hany) taskmap s = unregister_task c taskmap s := by
  unfold unregister_task
  simp only [free_allocation_repick]

theorem unregister_if_empty_repick (taskmap : a64fx_task_mapping) (s : Kernel) :
    unregister_if_empty (c.repick any hany) taskmap s = unregister_if_empty c taskmap s := by
  unfold unregister_if_empty
  simp only [unregister_task_repick]

theorem allocate_blade_repick (h : CmgMasks hw s.dev) (cmg : ℤ) (cpumask : cpumask_t)
    (taskmap : a64fx_task_mapping) :
    oss_a64fx_hwb_allocate_blade (c.repick any hany) cmg cpumask taskmap s =
      oss_a64fx_hwb_allocate_blade c cmg cpumask taskmap s := by
  unfold oss_a64fx_hwb_allocate_blade
  refine bind_congr_ok fun cmg _ => ?_
  simp only [register_allocation_repick h]

theorem free_leave_repick (h : CmgMasks hw s.dev) (cmg : Fin MAX_NUM_CMG)
    (taskmap : a64fx_task_mapping) (alloc : a64fx_task_allocation) :
    oss_a64fx_hwb_free_leave (c.repick any hany) cmg taskmap alloc s =
      oss_a64fx_hwb_free_leave c cmg taskmap alloc s := by
  unfold oss_a64fx_hwb_free_leave
  have hcmgs : ∀ a : a64fx_task_allocation, CmgMasks hw (s.dev.store_alloc taskmap a) := fun _ => h
  simp only [smp_any_repick cmg (hcmgs _ cmg), free_allocation_repick, unregister_if_empty_repick]
  rfl

/-- Taking `dev_lock` and finding the mapping leave the table alone. -/
theorem cmgs_of_spin_lock_dev (h : spin_lock_dev s = .ok s') : s'.dev = s.dev := by
  unfold spin_lock_dev at h
  split_ifs at h
  cases h
  rfl

theorem cmgs_allocate_taskmap (c : Call hw) (s : Kernel) :
    (oss_a64fx_hwb_allocate_taskmap c s).2.dev.cmgs = s.dev.cmgs := by
  unfold oss_a64fx_hwb_allocate_taskmap new_taskmap
  cases get_taskmap s.dev c.task with
  | some m => rfl
  | none =>
      cases c.kmalloc_taskmap with
      | false => rfl
      | true => rfl

theorem allocate_repick (h : CmgMasks hw s.dev) (cmg : ℤ) (cpumask : cpumask_t) :
    oss_a64fx_hwb_allocate (c.repick any hany) cmg cpumask s =
      oss_a64fx_hwb_allocate c cmg cpumask s := by
  unfold oss_a64fx_hwb_allocate
  by_cases hrange : cmg < 0 ∨ cmg > MAX_NUM_CMG
  · rw [if_pos hrange, if_pos hrange]
  · rw [if_neg hrange, if_neg hrange]
    refine bind_congr_ok fun t ht => ?_
    have hsame : oss_a64fx_hwb_allocate_taskmap (c.repick any hany) t =
        oss_a64fx_hwb_allocate_taskmap c t := rfl
    have hmasks : CmgMasks hw (oss_a64fx_hwb_allocate_taskmap c t).2.dev := by
      intro cmg k hk
      rw [cmgs_allocate_taskmap, cmgs_of_spin_lock_dev ht] at hk
      exact h cmg k hk
    simp only [hsame, allocate_blade_repick hmasks]

theorem allocate_ioctl_repick (h : CmgMasks hw s.dev) (arg : AllocArg) :
    oss_a64fx_hwb_allocate_ioctl (c.repick any hany) arg s =
      oss_a64fx_hwb_allocate_ioctl c arg s := by
  unfold oss_a64fx_hwb_allocate_ioctl
  simp only [allocate_repick h]
  rfl

/-- A withdrawal that gives its window back has the masks it started with. -/
theorem cmgMasks_free_unassign (h : CmgMasks hw s.dev) {cmg8 : Fin MAX_NUM_CMG}
    {pe : Option (Fin MAX_PE_PER_CMG)} {taskmap : a64fx_task_mapping}
    {alloc alloc' : a64fx_task_allocation}
    (hok : oss_a64fx_hwb_free_unassign c cmg8 pe taskmap alloc s = .ok (alloc', s')) :
    CmgMasks hw s'.dev := by
  unfold oss_a64fx_hwb_free_unassign at hok
  rw [bind_eq_ok] at hok
  obtain ⟨pe, -, hok⟩ := hok
  rw [bind_eq_ok] at hok
  obtain ⟨ppe, -, hok⟩ := hok
  rw [bind_eq_ok] at hok
  obtain ⟨bw_map, -, hok⟩ := hok
  rw [bind_eq_ok] at hok
  obtain ⟨w, -, hok⟩ := hok
  cases hok
  -- what is written is an entry of the core table
  intro cmg k hk
  apply h cmg k
  change ((Function.update s.dev.cmgs cmg8 _ : Fin MAX_NUM_CMG → a64fx_cmg_device)
    cmg).cmgmask.getLsbD k = true at hk
  by_cases hc : cmg = cmg8
  · subst hc
    rw [Function.update_self] at hk
    exact hk
  · rw [Function.update_of_ne hc] at hk
    exact hk

theorem free_withdraw_repick (h : CmgMasks hw s.dev) (cmg : Fin MAX_NUM_CMG)
    (taskmap : a64fx_task_mapping) (alloc : a64fx_task_allocation) :
    oss_a64fx_hwb_free_withdraw (c.repick any hany) cmg taskmap alloc s =
      oss_a64fx_hwb_free_withdraw c cmg taskmap alloc s := by
  have hget : CmgMasks hw (get_cpu s).dev := h
  have hcpu : (c.repick any hany).cpu = c.cpu := rfl
  unfold oss_a64fx_hwb_free_withdraw
  simp only [hcpu]
  by_cases hmem : cpumask_test_cpu c.cpu alloc.cpumask = true
  · rw [if_pos hmem, if_pos hmem]
    by_cases hassign : cpumask_test_cpu c.cpu alloc.assign_mask = true
    · rw [if_pos hassign, if_pos hassign]
      refine bind_congr_ok fun x hx => ?_
      exact free_leave_repick (cmgMasks_free_unassign hget hx) cmg taskmap x.1
    · rw [if_neg hassign, if_neg hassign]
      exact free_leave_repick hget cmg taskmap alloc
  · rw [if_neg hmem, if_neg hmem]

theorem free_blade_repick (h : CmgMasks hw s.dev) (cmg_id blade : ℤ)
    (taskmap : a64fx_task_mapping) :
    oss_a64fx_hwb_free_blade (c.repick any hany) cmg_id blade taskmap s =
      oss_a64fx_hwb_free_blade c cmg_id blade taskmap s := by
  unfold oss_a64fx_hwb_free_blade
  simp only [free_allocation_repick, unregister_if_empty_repick, free_withdraw_repick h]
  rfl

theorem free_repick (h : CmgMasks hw s.dev) (cmg_id blade : ℤ) :
    oss_a64fx_hwb_free (c.repick any hany) cmg_id blade s =
      oss_a64fx_hwb_free c cmg_id blade s := by
  unfold oss_a64fx_hwb_free
  refine bind_congr_ok fun t ht => ?_
  have hmasks : CmgMasks hw t.dev := by
    rw [cmgs_of_spin_lock_dev ht]
    exact h
  simp only [free_blade_repick hmasks]
  rfl

theorem close_repick (s : Kernel) :
    oss_a64fx_hwb_close (c.repick any hany) s = oss_a64fx_hwb_close c s := by
  unfold oss_a64fx_hwb_close
  simp only [unregister_task_repick]
  rfl

/-- **Every request.** The others do not ask the kernel to pick. -/
theorem handle_repick (h : CmgMasks hw s.dev) (e : Event hw) :
    handle (e.repick any hany) s = handle e s := by
  obtain ⟨c, request⟩ := e
  unfold Event.repick
  cases request with
  | «open» => rfl
  | close => exact close_repick s
  | ioctl ioc =>
      cases ioc with
      | BB_ALLOC arg => exact allocate_ioctl_repick h arg
      | BB_FREE arg =>
          show oss_a64fx_hwb_free_ioctl _ arg s = oss_a64fx_hwb_free_ioctl _ arg s
          unfold oss_a64fx_hwb_free_ioctl
          simp only [free_repick h]
      | GET_PE_INFO arg => rfl
      | BW_ASSIGN arg => rfl
      | BW_UNASSIGN arg => rfl
      | RESET => rfl
      | other => rfl

end Repick

/-! ## Runs -/

/-- The replies to the events, one after the other, and the state they lead to. -/
def answers : List (Event hw) → Kernel → Except Fault (List Reply × Kernel)
  | [], s => .ok ([], s)
  | e :: es, s => do
    let (reply, s) ← handle e s
    let (replies, s) ← answers es s
    return (reply :: replies, s)

/-- **Which CPU the kernel picks does not matter**, in any state of any run and for any
number of requests: the same replies, the same state, and a fault in the same place. -/
theorem picks_do_not_matter (h : (driver l R).Reachable s) {es es' : List (Event hw)}
    (hsame : List.Forall₂ Event.Alike es es') : answers es' s = answers es s := by
  induction hsame generalizing s with
  | nil => rfl
  | @cons e e' es es' he _ ih =>
      obtain ⟨any, hany, rfl⟩ := he
      unfold answers
      rw [handle_repick (reachable_inv h).1.table.cmgMasks]
      refine bind_congr_ok fun ⟨reply, t⟩ ht => ?_
      have hrest := ih (reachable_of_handle h ht)
      simp only [hrest]

/-- The highest CPU of a mask. -/
def highest (m : cpumask_t) : ℕ := (bits m).getLastD 0

theorem getLsbD_highest (m : cpumask_t) (h : m ≠ 0) : m.getLsbD (highest m) = true := by
  obtain ⟨i, hi⟩ := exists_getLsbD_of_ne_zero h
  have hne : bits m ≠ [] := List.ne_nil_of_mem ((mem_bits m i).mpr hi)
  unfold highest
  rw [List.getLastD_eq_getLast?, List.getLast?_eq_some_getLast hne, Option.getD_some]
  exact (mem_bits m _).mp (List.getLast_mem hne)

/-- A blade of CPUs 0 to 2, from which CPU 1 withdraws: CPU 0 writes the register both times,
or CPU 3. -/
theorem picks_do_not_matter_quad :
    answers [(Quad.alloc Quad.first 0 0x7).repick highest getLsbD_highest,
        (Quad.free Quad.second 1 0).repick highest getLsbD_highest] (after Quad.load []) =
      answers [Quad.alloc Quad.first 0 0x7, Quad.free Quad.second 1 0] (after Quad.load []) ∧
    (Quad.call Quad.first 0).any 0xF = 0 ∧ highest 0xF = 3 := by
  have hreach : (driver Quad.load fun _ => True).Reachable (after Quad.load []) :=
    reachable_after trivial (by decide +kernel) (by decide)
  refine ⟨picks_do_not_matter hreach ?_, by decide, by decide⟩
  exact .cons ⟨_, _, rfl⟩ (.cons ⟨_, _, rfl⟩ .nil)

end A64fxHwb
