/-
The driver, `a64fx_hwb_ioctl.c`, function by function and in the order of the
file.

An `int` a function returns beside its outputs is the first component of its
result; an early `return` or a `goto` out is the branch that leaves the `do`
block. Each exit unlocks by itself, as in the source. The prints are left out:
`pr_debug` compiles to nothing without `DEBUG`, as the build leaves it, in a kernel
without `CONFIG_DYNAMIC_DEBUG`, and `pr_err` reads nothing but what it prints.
-/
import A64fxHwb.Kernel

set_option autoImplicit false

namespace A64fxHwb

open BitWord

variable {hw : Machine}

/-! ## Masks and tables -/

/-- The body of the two inner loops of `check_cpumask`, for one entry of the
core table. `cmg` is the CMG of the first CPU that was found. -/
def check_cpumask_pe (cpu : ℕ) (cmg : ℤ) (pe : a64fx_core_mapping) : Except ℤ ℤ :=
  if pe.cpu_id = cpu then
    -- the first CPU that is found sets the CMG, the later ones must agree
    let cmg := if cmg < 0 then pe.cmg_id else cmg
    if cmg ≠ pe.cmg_id then .error (-1) else .ok cmg
  else .ok cmg

/-- The entries the two inner loops of `check_cpumask` visit, in order. -/
def check_cpumask_pes (dev : a64fx_hwb_device) : List a64fx_core_mapping :=
  ((List.finRange MAX_NUM_CMG).filter fun i => decide (i.val < dev.num_cmgs)).flatMap fun i =>
    (dev.cmgs i).slots.map (dev.cmgs i).pe_map

/-- The body of the outer loop of `check_cpumask`, for one CPU of the mask. -/
def check_cpumask_cpu (online : cpumask_t) (dev : a64fx_hwb_device) (cmg : ℤ) (cpu : ℕ) :
    Except ℤ ℤ :=
  if !cpumask_test_cpu cpu online then .error (-1)
  else (check_cpumask_pes dev).foldlM (check_cpumask_pe cpu) cmg

/-- `check_cpumask`. -/
def check_cpumask (online : cpumask_t) (dev : a64fx_hwb_device) (cpumask : cpumask_t) : ℤ :=
  if cpumask_weight cpumask < 2 then -EINVAL
  else
    match (for_each_cpu cpumask).foldlM (check_cpumask_cpu online dev) (-1) with
    | .ok cmg => cmg
    | .error err => err

/-- `cpumask_to_ppemask`. -/
def cpumask_to_ppemask (cmg : a64fx_cmg_device) (cpumask : cpumask_t) : BitVec 64 :=
  (for_each_cpu cpumask).foldl (fun mask (cpu : ℕ) =>
    cmg.slots.foldl (fun mask i =>
      if (cmg.pe_map i).cpu_id = cpu then setBit mask (cmg.pe_map i).ppe_id.toNat else mask) mask) 0

/-- `get_pemap`. -/
def get_pemap (dev : a64fx_hwb_device) (cmg : Fin MAX_NUM_CMG) (ppe : ℕ) :
    Option (Fin MAX_PE_PER_CMG) :=
  (dev.cmgs cmg).slots.find? fun i =>
    decide (((dev.cmgs cmg).pe_map i).cmg_id = cmg.val ∧ ((dev.cmgs cmg).pe_map i).ppe_id = ppe)

/-! ## The functions run on another CPU -/

structure hwb_allocate_info where
  blade : ℤ := 0
  cmg : ℤ := 0
  ppemask : BitVec 64 := 0

/-- `oss_a64fx_hwb_allocate_func`. -/
def oss_a64fx_hwb_allocate_func (hw : Machine) (info : hwb_allocate_info) (cpu : ℕ)
    (regs : hwb_regs) : hwb_regs :=
  (write_init_sync_bb hw cpu info.blade info.ppemask regs).2

structure hwb_assign_info where
  cpu : ℤ := 0
  cmg : ℤ := 0
  blade : ℤ := 0
  valid : ℤ := 0
  window : ℤ := 0

/-- `oss_a64fx_hwb_assign_func`. -/
def oss_a64fx_hwb_assign_func (info : hwb_assign_info) (cpu : ℕ) (regs : hwb_regs) : hwb_regs :=
  (write_assign_sync_wr cpu info.window info.valid info.blade regs).2

/-! ## Allocations -/

/-- `get_allocation`. -/
def get_allocation (cmg : a64fx_cmg_device) (taskmap : a64fx_task_mapping) (blade : ℤ) :
    Option a64fx_task_allocation :=
  taskmap.allocs.find? fun alloc =>
    decide ((alloc.cmg : ℤ) = cmg.cmg_id ∧ (alloc.blade : ℤ) = blade)

/-- The fields `new_allocation` fills in. -/
def init_allocation (cmg : a64fx_cmg_device) (taskmap : a64fx_task_mapping) (blade : ℕ)
    (cpumask : cpumask_t) : a64fx_task_allocation where
  cmg := u8 cmg.cmg_id
  blade := u8 blade
  window := fun _ => A64FX_HWB_UNASSIGNED_WIN
  task := taskmap.task
  assign_count := 0
  assign_mask := 0
  cpumask := cpumask

/-- `new_allocation`. The pointer it returns is `NULL` also when it succeeds. -/
def new_allocation (c : Call hw) (cmg : Fin MAX_NUM_CMG) (taskmap : a64fx_task_mapping) (blade : ℕ)
    (cpumask : cpumask_t) (s : Kernel) :
    Except Fault (Option a64fx_task_allocation × Kernel) := do
  let cmgdev := s.dev.cmgs cmg
  match get_allocation cmgdev taskmap blade with
  | some _ => return (none, s)
  | none =>
    if !c.kmalloc_alloc then return (none, s)
    else
      let alloc := init_allocation cmgdev taskmap blade cpumask
      let s := { s with dev := s.dev.with_taskmap taskmap fun m =>
        { m with allocs := alloc :: m.allocs, num_allocs := m.num_allocs + 1 } }
      let info : hwb_allocate_info :=
        { blade := blade, cmg := cmgdev.cmg_id, ppemask := cpumask_to_ppemask cmgdev alloc.cpumask }
      let s := smp_call_function_any c cmgdev.cmgmask (oss_a64fx_hwb_allocate_func hw info) s
      let bb_active ← set_bit info.blade cmgdev.bb_active
      -- `NULL` here too: the caller cannot tell success from failure
      return (none, { s with dev := s.dev.with_cmg cmg fun d => { d with bb_active := bb_active } })

/-- `register_allocation`. -/
def register_allocation (c : Call hw) (cmg : Fin MAX_NUM_CMG) (taskmap : a64fx_task_mapping)
    (blade : ℕ) (cpumask : cpumask_t) (s : Kernel) :
    Except Fault (Option a64fx_task_allocation × Kernel) :=
  match get_allocation (s.dev.cmgs cmg) taskmap blade with
  | some alloc => .ok (some alloc, s)
  | none => new_allocation c cmg taskmap blade cpumask s

/-- The variables of the loop in `free_allocation`. `pemap` keeps its value from
one iteration to the next. -/
structure FreeLoop where
  kernel : Kernel
  alloc : a64fx_task_allocation
  pemap : Option (Fin MAX_PE_PER_CMG)

/-- The body of the loop in `free_allocation`, for one CPU of `assign_mask`. -/
def free_allocation_cpu (c : Call hw) (cmg : Fin MAX_NUM_CMG) (taskmap : a64fx_task_mapping)
    (l : FreeLoop) (cpu : ℕ) : Except Fault FreeLoop := do
  let cmgdev := l.kernel.dev.cmgs cmg
  -- without a match `pemap` still points to the entry of an earlier CPU
  let pemap := (cmgdev.slots.find? fun i => decide ((cmgdev.pe_map i).cpu_id = cpu)).or l.pemap
  let pe ← pemap_deref pemap
  let ppe ← window_ptr (cmgdev.pe_map pe).ppe_id
  let window := l.alloc.window ppe
  let ainfo : hwb_assign_info :=
    { cpu := cpu, cmg := l.alloc.cmg, blade := 0, valid := 0, window := window }
  if window ≥ 0 ∧ window < MAX_BW_PER_CMG then
    let s := smp_call_function_single c (cmgdev.pe_map pe).cpu_id (oss_a64fx_hwb_assign_func ainfo)
      l.kernel
    let bw_map ← clear_bit window (cmgdev.pe_map pe).bw_map
    let alloc := { l.alloc with
      assign_mask := cpumask_clear_cpu cpu l.alloc.assign_mask
      window := Function.update l.alloc.window ppe A64FX_HWB_UNASSIGNED_WIN
      assign_count := l.alloc.assign_count - 1 }
    let dev := (s.dev.with_cmg cmg fun d => d.with_pe pe fun p => { p with bw_map := bw_map })
    return {
      kernel := { s with dev := dev.store_alloc taskmap alloc }
      alloc := alloc
      pemap := pemap }
  else return { l with pemap := pemap }

/-- `for_each_cpu(cpu, &alloc->assign_mask)` in `free_allocation`. The body clears
bits of the mask it walks, so each CPU is tested against the mask as it then is. -/
def free_allocation_loop (c : Call hw) (cmg : Fin MAX_NUM_CMG) (taskmap : a64fx_task_mapping)
    (l : FreeLoop) : Except Fault FreeLoop :=
  (List.range nr_cpu_ids).foldlM (fun l cpu =>
    if cpumask_test_cpu cpu l.alloc.assign_mask then free_allocation_cpu c cmg taskmap l cpu
    else pure l) l

/-- `free_allocation`. -/
def free_allocation (c : Call hw) (cmg : Fin MAX_NUM_CMG) (taskmap : a64fx_task_mapping)
    (alloc : a64fx_task_allocation) (s : Kernel) : Except Fault Kernel := do
  let active ← test_bit c alloc.blade (s.dev.cmgs cmg).bb_active
  let s ←
    if active then do
      let l : FreeLoop := { kernel := s, alloc := alloc, pemap := none }
      let l ← if alloc.assign_count > 0 then free_allocation_loop c cmg taskmap l else pure l
      let s := l.kernel
      -- an empty mask, which the register write refuses
      let info : hwb_allocate_info := { blade := alloc.blade, cmg := alloc.cmg, ppemask := 0 }
      let s := smp_call_function_any c (s.dev.cmgs cmg).cmgmask
        (oss_a64fx_hwb_allocate_func hw info) s
      let bb_active ← clear_bit alloc.blade (s.dev.cmgs cmg).bb_active
      pure { s with dev := s.dev.with_cmg cmg fun d => { d with bb_active := bb_active } }
    else pure s
  return { s with dev := s.dev.with_taskmap taskmap fun m =>
    { m with
      allocs := Keyed.erase a64fx_task_allocation.place alloc.place m.allocs
      num_allocs := m.num_allocs - 1 } }

/-! ## Task mappings -/

/-- `get_taskmap`. -/
def get_taskmap (dev : a64fx_hwb_device) (task : task_struct) : Option a64fx_task_mapping :=
  dev.task_list.find? fun taskmap => decide (taskmap.task.tgid = task.tgid)

/-- `new_taskmap`. -/
def new_taskmap (c : Call hw) (task : task_struct) (s : Kernel) :
    Option a64fx_task_mapping × Kernel :=
  match get_taskmap s.dev task with
  | some _ => (none, s)
  | none =>
    if !c.kmalloc_taskmap then (none, s)
    else
      let taskmap : a64fx_task_mapping := { task := task, num_allocs := 0, allocs := [] }
      (some taskmap, { s with dev := { s.dev with
        task_list := taskmap :: s.dev.task_list, num_tasks := s.dev.num_tasks + 1 } })

/-- `unregister_task`. -/
def unregister_task (c : Call hw) (taskmap : a64fx_task_mapping) (s : Kernel) :
    Except Fault Kernel := do
  let s ←
    if taskmap.num_allocs > 0 then
      taskmap.allocs.foldlM (fun s alloc => do
        let cmg ← cmgs_ptr alloc.cmg
        free_allocation c cmg taskmap alloc s) s
    else pure s
  return { s with dev := { s.dev with
    task_list := Keyed.erase a64fx_task_mapping.group taskmap.group s.dev.task_list
    num_tasks := s.dev.num_tasks - 1 } }

/-- `if (taskmap->num_allocs == 0) unregister_task(dev, taskmap)`, after
`free_allocation` may have changed what `taskmap` points to. -/
def unregister_if_empty (c : Call hw) (taskmap : a64fx_task_mapping) (s : Kernel) :
    Except Fault Kernel :=
  match get_taskmap s.dev taskmap.task with
  | none => .error .stale_pointer
  | some taskmap => if taskmap.num_allocs = 0 then unregister_task c taskmap s else .ok s

end A64fxHwb
